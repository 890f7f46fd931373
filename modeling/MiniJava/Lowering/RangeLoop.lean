import MiniJava.Syntax.Stmt
import MiniJava.Text.CharClass
import MiniJava.Typing.ValueType

/-!
# Counting loops

A `for` loop counts if it gives one integral variable a start, compares it with a bound, moves it
by a fixed step towards the bound, and its body assigns neither the variable nor a name that the
bound reads. Such a loop visits a range of integers that is known before it starts. The step and the
end of the range are computed with 64-bit integers, and a result that is none of these has to be
noticed.
-/

namespace MiniJava

namespace Expr

/-- The targets of the assignments and steps in an expression. -/
def assigned : Expr → List String
  | .assign target _ value _ => target :: value.assigned
  | .step target _ _ _ => [target]
  | .binary _ lhs rhs => lhs.assigned ++ rhs.assigned
  | .unary _ operand => operand.assigned
  | .literal _ _ | .name _ _ => []

/-- The names that an expression reads as operands. -/
def reads : Expr → List String
  | .name read _ => [read]
  | .binary _ lhs rhs => lhs.reads ++ rhs.reads
  | .unary _ operand => operand.reads
  | .assign _ _ value _ => value.reads
  | .literal _ _ | .step _ _ _ _ => []

end Expr

def assignedIn (exprs : List Expr) : List String := exprs.flatMap Expr.assigned

mutual

/-- The names assigned in a statement. The values of case labels are not looked at. -/
def Stmt.assigned : Stmt → List String
  | .declare decl => assignedIn decl.init.toList
  | .expression e => e.assigned
  | .block body => allAssigned body
  | .ifElse e thenBranch none => e.assigned ++ thenBranch.assigned
  | .ifElse e thenBranch (some elseBranch) =>
    e.assigned ++ thenBranch.assigned ++ elseBranch.assigned
  | .whileLoop e body => e.assigned ++ body.assigned
  | .doWhile body e => e.assigned ++ body.assigned
  | .forLoop none e update body => assignedIn e.toList ++ assignedIn update ++ body.assigned
  | .forLoop (some init) e update body =>
    init.assigned ++ assignedIn e.toList ++ assignedIn update ++ body.assigned
  | .switch e cases none => e.assigned ++ allCaseAssigned cases
  | .switch e cases (some default) => e.assigned ++ allCaseAssigned cases ++ allAssigned default
  | .tryCatch body catches none => allAssigned body ++ allCatchAssigned catches
  | .tryCatch body catches (some cleanup) =>
    allAssigned body ++ allCatchAssigned catches ++ allAssigned cleanup
  | .print _ args _ => assignedIn args
  | .returns value _ => assignedIn value.toList
  | .breaks | .continues | .empty => []

def allAssigned : List Stmt → List String
  | [] => []
  | first :: rest => first.assigned ++ allAssigned rest

def allCaseAssigned : List (SwitchCase Stmt) → List String
  | [] => []
  | ⟨_, body⟩ :: rest => allAssigned body ++ allCaseAssigned rest

def allCatchAssigned : List (CatchClause Stmt) → List String
  | [] => []
  | ⟨_, _, body, _⟩ :: rest => allAssigned body ++ allCatchAssigned rest

end

structure RangeLoop where
  counter : String
  type : ValueType
  position : Position
  start : Expr
  stop : Expr
  step : Int
  inclusive : Bool
deriving DecidableEq, Repr

namespace RangeLoop

/-- A counter with its type, its place and its start. -/
structure Counter where
  name : String
  type : ValueType
  position : Position
  start : Expr
deriving DecidableEq, Repr

/-- The counter that the first part of a header declares or assigns. -/
def counter? : Stmt → Option Counter
  | .declare decl =>
    let type := ValueType.ofTypeName decl.type
    if type.isIntegral then
      decl.init.map fun start => ⟨decl.name, type, decl.position, start⟩
    else none
  | .expression (.assign target none start position) => some ⟨target, .int, position, start⟩
  | _ => none

/-- The comparison of the counter on its left side, and the bound. -/
def bound? (counter : String) : Expr → Option (BinaryOp × Expr)
  | .binary op (.name name _) bound => if name = counter then some (op, bound) else none
  | _ => none

/-- The amount by which the only update moves the counter. -/
def step? (counter : String) : List Expr → Option Int
  | [.step target op _ _] =>
    if target = counter then
      match op with
      | .increment => some 1
      | .decrement => some (-1)
    else none
  | [.assign target (some op) (.literal (.number amount) _) _] =>
    if target = counter then
      match op with
      | .add => Text.int64? amount
      | .sub => ((Text.int64? amount).map (- ·)).filter Text.isInt64
      | _ => none
    else none
  | _ => none

/-- Whether the counter is moved back by an amount whose negation is no 64-bit integer. -/
def stepOverflows (counter : String) : List Expr → Bool
  | [.assign target (some .sub) (.literal (.number amount) _) _] =>
    target = counter && (Text.int64? amount).any fun n => !Text.isInt64 (-n)
  | _ => false

/-- Whether the comparison lets the bound itself be reached, if it fits the direction of the
step. -/
def inclusive? (comparison : BinaryOp) (step : Int) : Option Bool :=
  match comparison with
  | .lt => if step > 0 then some false else none
  | .gt => if step < 0 then some false else none
  | .le => if step > 0 then some true else none
  | .ge => if step < 0 then some true else none
  | _ => none

/-- Whether a loop body leaves the counter and what the bound reads alone. -/
def undisturbed (counter : String) (bound : Expr) (body : Stmt) : Bool :=
  !body.assigned.contains counter &&
    bound.reads.all fun name => !body.assigned.contains name

def detect? (init : Stmt) (condition : Option Expr) (update : List Expr) (body : Stmt) :
    Option RangeLoop := do
  let counter ← counter? init
  let (comparison, bound) ← bound? counter.name (← condition)
  let step ← step? counter.name update
  let inclusive ← inclusive? comparison step
  if undisturbed counter.name bound body then
    return ⟨counter.name, counter.type, counter.position, counter.start, bound, step, inclusive⟩
  else none

/-- Whether the step of a loop is looked at, because its header has a counter and a bound, and
overflows. -/
def headerOverflows (init : Stmt) (condition : Option Expr) (update : List Expr) : Bool :=
  (counter? init).any fun counter =>
    condition.any fun e => (bound? counter.name e).isSome && stepOverflows counter.name update

/-- The bound, if it is written as a 64-bit integer. -/
def literalBound? (loop : RangeLoop) : Option Int :=
  match loop.stop with
  | .literal (.number text) _ => Text.int64? text
  | _ => none

theorem exists_of_literalBound? {loop : RangeLoop} {n : Int} (h : loop.literalBound? = some n) :
    ∃ text position, loop.stop = .literal (.number text) position ∧ Text.int64? text = some n := by
  unfold literalBound? at h
  split at h
  · next text position hstop => exact ⟨text, position, hstop, h⟩
  · cases h

/-- Whether a literal bound is reached that has no 64-bit integer behind it. -/
def endOverflows (loop : RangeLoop) : Bool :=
  loop.inclusive && loop.literalBound?.any fun n => !Text.isInt64 (n + loop.step.sign)

end RangeLoop

end MiniJava
