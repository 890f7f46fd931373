import MiniJava.Lowering.Expression
import MiniJava.Lowering.RangeLoop
import MiniJava.Target.Stmt

/-!
# Lowering statements

A statement becomes Python statements, and its declarations come into scope for the statements
behind it. Assignments and steps stand as statements of their own. A switch becomes a chain of
comparisons with its subject, in which labels without statements join the next one; the statements
of a label end at its first `break`. A scope that is entered is left again, also when the
statements in it cannot be lowered. Where the step or the end of a range overflows, the lowering is
cut off.
-/

namespace MiniJava

/-- A result or a failure, with the declarations in scope behind it. -/
abbrev Lowering (α : Type) := ExceptT Failure (StateM SymbolTable) α

namespace Lowering

def outcome {α : Type} (action : Lowering α) (table : SymbolTable) :
    Except Failure α × SymbolTable :=
  (ExceptT.run action).run table

/-- Runs an action in a scope of its own. -/
def inScope {α : Type} (action : Lowering α) : Lowering α :=
  ExceptT.mk fun table =>
    let inner := action.outcome table.enter
    (inner.1, inner.2.leave)

def refuseOverflow (overflows : Bool) : Lowering Unit :=
  if overflows then throw .overflow else return ()

/-- Brings a name into scope; a name that the scope has already keeps its first declaration. -/
def declare (name : String) (type : ValueType) (position : Position) : Lowering Unit :=
  modify fun table =>
    match table.declare name ⟨type, position, true, false⟩ with
    | .ok extended => extended
    | .error _ => table

def value (place : Place) (e : Expr) : Lowering Target.Expr := do
  liftExcept (expr place (← get) e)
where
  liftExcept (result : Except Failure Target.Expr) : Lowering Target.Expr :=
    ExceptT.mk (pure result)

def values (place : Place) : List Expr → Lowering (List Target.Expr)
  | [] => return []
  | first :: rest => return (← value place first) :: (← values place rest)

def reference (place : Place) (name : String) : Lowering Target.Expr :=
  return place.reference (← get) name

def typeOf (e : Expr) : Lowering (Option ValueType) := return (← get).typeOf e

/-- What a variable holds that is declared without a value. -/
def defaultValue (type : ValueType) : Target.Expr :=
  match type with
  | .float | .double => .number "0.0"
  | .boolean => .bool false
  | _ => if type.isNumeric then .number "0" else .noneValue

def initial (place : Place) (decl : VarDecl) : Lowering Target.Expr :=
  match decl.init with
  | none => return defaultValue (.ofTypeName decl.type)
  | some init => value place init

/-- The Python exception that is caught for an exception class. -/
def exceptionName (type : TypeName) : String :=
  match type.name with
  | "ArithmeticException" => "ZeroDivisionError"
  | "ArrayIndexOutOfBoundsException" | "IndexOutOfBoundsException" => "IndexError"
  | "NumberFormatException" | "IllegalArgumentException" => "ValueError"
  | "NullPointerException" => "AttributeError"
  | _ => "Exception"

/-- A format text for Python's `%`: its line breaks are escapes, and all else stays. -/
def formatText : List Char → List Char
  | '%' :: 'n' :: rest => '\\' :: 'n' :: formatText rest
  | '%' :: c :: rest => '%' :: c :: formatText rest
  | c :: rest => c :: formatText rest
  | [] => []

def format (place : Place) : Expr → Lowering Target.Expr
  | .literal (.string text) _ => return .string (String.ofList (formatText text.toList))
  | e => value place e

/-- A print call shows its first argument; a formatted one needs a format to show anything. -/
def print (place : Place) (kind : PrintKind) (args : List Expr) : Lowering (List Target.Stmt) :=
  match kind, args with
  | .printf, [] => return []
  | .printf, first :: rest => do
    let format ← format place first
    let values ← values place rest
    return [.printFormatted format values]
  | .println, args => return [.print (← values place (args.take 1)).head? true]
  | .print, args => return [.print (← values place (args.take 1)).head? false]

/-- An expression for its effect. -/
def effect (place : Place) : Expr → Lowering (List Target.Stmt)
  | .assign target none e _ => do
    let source ← value place e
    return [.assign (← reference place target) source]
  | .assign _ (some .ushr) _ position =>
    throw (.untranslatable ⟨.unsignedShiftAssignment, position⟩)
  | .assign target (some op) e position => do
    let targetType ← typeOf (.name target position)
    let sourceType ← typeOf e
    let source ← value place e
    let update := if op = .div && dividesIntegers targetType sourceType then
      Target.UpdateOp.floorDiv else .applying op
    return [.update (← reference place target) update source]
  | .step target op _ _ => do
    let update := match op with
      | .increment => BinaryOp.add
      | .decrement => BinaryOp.sub
    return [.update (← reference place target) (.applying update) (.number "1")]
  | e => return [.expression (← value place e)]

def effects (place : Place) : List Expr → Lowering (List Target.Stmt)
  | [] => return []
  | first :: rest => return (← effect place first) ++ (← effects place rest)

/-- The condition of a `for` loop; without one the loop goes on. -/
def loopCondition (place : Place) : Option Expr → Lowering Target.Expr
  | none => return .bool true
  | some e => value place e

/-- Moves a bound that is reached one step further, so that a range stops behind it. The sum of a
literal bound is the one of 64-bit integers unless the end overflows. -/
def boundBehind (loop : RangeLoop) (bound : Target.Expr) : Target.Expr :=
  match loop.literalBound? with
  | some n => .number (toString (n + loop.step.sign))
  | none => .binary (if loop.step > 0 then .add else .sub) bound (.number "1")

/-- Start and stop of a range, with the counter in scope behind them. -/
def rangeBounds (place : Place) (loop : RangeLoop) : Lowering (Target.Expr × Target.Expr) := do
  let start ← value place loop.start
  let bound ← value place loop.stop
  refuseOverflow loop.endOverflows
  declare loop.counter loop.type loop.position
  return (start, if loop.inclusive then boundBehind loop bound else bound)

/-- A label's comparison with the subject, behind those of the labels that share its statements. -/
def matching (subject : Target.Expr) (pending : Option Target.Expr) (label : Target.Expr) :
    Target.Expr :=
  let test := Target.Expr.binary .eq subject label
  match pending with
  | none => test
  | some earlier => .binary .or earlier test

def alternatives (default : Option (List Target.Stmt)) :
    List (Target.Expr × List Target.Stmt) → Target.Alternative
  | [] =>
    match default with
    | none => .nothing
    | some body => .otherwise body
  | (condition, body) :: rest => .elseIf condition body (alternatives default rest)

/-- The chain of a switch; if no label has statements, the default's are all there is. -/
def chain (groups : List (Target.Expr × List Target.Stmt)) (default : Option (List Target.Stmt)) :
    List Target.Stmt :=
  match groups with
  | [] => default.getD []
  | (condition, body) :: rest => [.ifElse condition body (alternatives default rest)]

mutual

/-- Lowers a statement. The scope of a block is its own unless it is `shared` with the statement
that the block is the body of. -/
def stmt (place : Place) (shared : Bool) : Stmt → Lowering (List Target.Stmt)
  | .declare decl => do
    let source ← initial place decl
    declare decl.name (.ofTypeName decl.type) decl.position
    return [.assign (← reference place decl.name) source]
  | .expression e => effect place e
  | .block body => if shared then stmts place body else inScope (stmts place body)
  | .ifElse e thenBranch elseBranch => do
    let condition ← value place e
    let body ← inScope (stmt place true thenBranch)
    return [.ifElse condition body (← alternative place elseBranch)]
  | .whileLoop e body => do
    let condition ← value place e
    return [.whileLoop condition (← inScope (stmt place true body))]
  | .doWhile body e => do
    let body ← inScope do
      let body ← stmt place true body
      let condition ← value place e
      return body ++ [.ifElse (.negation condition) [.breaks] .nothing]
    return [.whileLoop (.bool true) body]
  | .forLoop none e update body => inScope do
    let condition ← loopCondition place e
    let body ← inScope do return (← stmt place true body) ++ (← effects place update)
    return [.whileLoop condition body]
  | .forLoop (some init) e update body => inScope do
    match RangeLoop.detect? init e update body with
    | some loop => do
      let (start, stop) ← rangeBounds place loop
      let counter ← reference place loop.counter
      return [.forRange counter start stop loop.step (← inScope (stmt place true body))]
    | none => do
      refuseOverflow (RangeLoop.headerOverflows init e update)
      let first ← stmt place false init
      let condition ← loopCondition place e
      let body ← inScope do return (← stmt place true body) ++ (← effects place update)
      return first ++ [.whileLoop condition body]
  | .switch scrutinee cases default => do
    let subject ← value place scrutinee
    let groups ← groups place subject none cases
    return chain groups (← defaultBody place default)
  | .tryCatch body catches cleanup => do
    let body ← inScope (stmts place body)
    let handlers ← handlers place catches
    return [.tryExcept body handlers (← cleanupBody place cleanup)]
  | .print kind args _ => print place kind args
  | .returns none _ => return [.returns none]
  | .returns (some e) _ => return [.returns (some (← value place e))]
  | .breaks => return [.breaks]
  | .continues => return [.continues]
  | .empty => return []

def stmts (place : Place) : List Stmt → Lowering (List Target.Stmt)
  | [] => return []
  | first :: rest => return (← stmt place false first) ++ (← stmts place rest)

/-- An `else` branch; an `if` in it continues the chain. -/
def alternative (place : Place) : Option Stmt → Lowering Target.Alternative
  | none => return .nothing
  | some (.ifElse e thenBranch elseBranch) => do
    let condition ← value place e
    let body ← inScope (stmt place true thenBranch)
    return .elseIf condition body (← alternative place elseBranch)
  | some branch => return .otherwise (← inScope (stmt place true branch))

/-- The statements of a label up to its first `break`. -/
def caseBody (place : Place) : List Stmt → Lowering (List Target.Stmt)
  | [] => return []
  | .breaks :: _ => return []
  | first :: rest => return (← stmt place false first) ++ (← caseBody place rest)

def groups (place : Place) (subject : Target.Expr) (pending : Option Target.Expr) :
    List (SwitchCase Stmt) → Lowering (List (Target.Expr × List Target.Stmt))
  | [] => return []
  | ⟨label, body⟩ :: rest => do
    let condition := matching subject pending (← value place label)
    if body.isEmpty then groups place subject (some condition) rest
    else do
      let body ← inScope (caseBody place body)
      return (condition, body) :: (← groups place subject none rest)

def defaultBody (place : Place) : Option (List Stmt) → Lowering (Option (List Target.Stmt))
  | none => return none
  | some body => return some (← inScope (caseBody place body))

def handlers (place : Place) :
    List (CatchClause Stmt) → Lowering (List (Target.Handler Target.Stmt))
  | [] => return []
  | ⟨exception, name, body, position⟩ :: rest => do
    let body ← inScope do
      declare name (.ofTypeName exception) position
      stmts place body
    return ⟨exceptionName exception, name, body⟩ :: (← handlers place rest)

def cleanupBody (place : Place) : Option (List Stmt) → Lowering (Option (List Target.Stmt))
  | none => return none
  | some body => return some (← inScope (stmts place body))

end

end Lowering

end MiniJava
