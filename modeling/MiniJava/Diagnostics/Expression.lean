import MiniJava.Diagnostics.Diagnostic
import MiniJava.Scope.SymbolTable
import MiniJava.Typing.Operator

/-!
# Checking expressions

An inspection holds the declarations in scope and the diagnostics found so far. Checking an
expression gives its type, if one can be told, and the inspection behind it: an assignment in the
expression counts from then on.
-/

namespace MiniJava

structure Inspection where
  symbols : SymbolTable
  diagnostics : List Diagnostic
deriving DecidableEq, Repr, Inhabited

/-- What checking an expression gives. -/
structure Checked where
  type : Option ValueType
  after : Inspection
deriving DecidableEq, Repr, Inhabited

namespace Inspection

def start : Inspection := ⟨.empty, []⟩

def report (inspection : Inspection) (position : Position) (problem : Problem) : Inspection :=
  { inspection with diagnostics := inspection.diagnostics ++ [⟨problem, position⟩] }

def reportIf (inspection : Inspection) (condition : Bool) (position : Position)
    (problem : Problem) : Inspection :=
  if condition then inspection.report position problem else inspection

def enter (inspection : Inspection) : Inspection :=
  { inspection with symbols := inspection.symbols.enter }

def leave (inspection : Inspection) : Inspection :=
  { inspection with symbols := inspection.symbols.leave }

def declare (inspection : Inspection) (name : String) (symbol : Symbol) : Inspection :=
  match inspection.symbols.declare name symbol with
  | .ok symbols => { inspection with symbols }
  | .error previous => inspection.report symbol.position (.redeclared name previous)

def markInitialized (inspection : Inspection) (name : String) : Inspection :=
  { inspection with symbols := inspection.symbols.markInitialized name }

/-- Reads a variable: it has to be declared and to have been assigned. -/
def read (inspection : Inspection) (name : String) (position : Position) : Checked :=
  match inspection.symbols.lookup? name with
  | none => ⟨none, inspection.report position (.undeclared name)⟩
  | some symbol =>
    ⟨some symbol.type, inspection.reportIf (!symbol.initialized) position (.uninitialized name)⟩

/-- Writes a variable: it has to be declared and not to be a final one that has been assigned. -/
def write (inspection : Inspection) (name : String) (position : Position) : Inspection :=
  match inspection.symbols.lookup? name with
  | none => inspection.report position (.undeclared name)
  | some symbol =>
    inspection.reportIf (symbol.constant && symbol.initialized) position (.assignToFinal name)

/-- An integral literal fits the types that are narrower than `int`. -/
def narrows (target : ValueType) : Expr → Bool
  | .literal value _ => value.isIntegral && (target = .byte || target = .short || target = .char)
  | _ => false

/-- A value stored in a variable has to be of a type that the variable accepts. -/
def assignable (inspection : Inspection) (target : ValueType) (source : Option ValueType)
    (value : Expr) (position : Position) : Inspection :=
  match source with
  | none => inspection
  | some source =>
    inspection.reportIf (!target.accepts source && !narrows target value) position
      (.unassignable source target)

/-- An operation whose operands have been checked. -/
def conclude (inspection : Inspection) (typing : Typing) (position : Position)
    (problem : Problem) : Checked :=
  ⟨typing.type?, inspection.reportIf (typing = .invalid) position problem⟩

/-- The check of a value against the variable that an assignment stores it in. -/
def store (inspection : Inspection) (symbol : Symbol) (op : Option BinaryOp)
    (source : Option ValueType) (value : Expr) (position : Position) : Inspection :=
  match op with
  | none => inspection.assignable symbol.type source value position
  | some op =>
    inspection.reportIf (op.typing (some symbol.type) source = .invalid) position
      (.assignedOperands op symbol.type (source.getD .void))

def expr (inspection : Inspection) : Expr → Checked
  | .literal value _ => ⟨some (.ofLiteral value), inspection⟩
  | .name name position => inspection.read name position
  | .binary op lhs rhs =>
    let left := inspection.expr lhs
    let right := left.after.expr rhs
    right.after.conclude (op.typing left.type right.type) lhs.position
      (.operands op (left.type.getD .void) (right.type.getD .void))
  | .unary op operand =>
    let inner := inspection.expr operand
    inner.after.conclude (op.typing inner.type) operand.position
      (.operand op (inner.type.getD .void))
  | .assign target op value position =>
    let symbol := inspection.symbols.lookup? target
    let written := inspection.write target position
    let unread := op.isSome && symbol.any fun symbol => !symbol.initialized
    let source := (written.reportIf unread position (.uninitialized target)).expr value
    match symbol with
    | none => ⟨none, source.after⟩
    | some symbol =>
      ⟨some symbol.type,
        (source.after.store symbol op source.type value position).markInitialized target⟩
  | .step target op _ position =>
    let current := inspection.read target position
    match current.type with
    | none => current
    | some type =>
      ⟨some type,
        (current.after.write target position).reportIf (!type.isNumeric) position
          (.stepped op type)⟩

def exprs (inspection : Inspection) (list : List Expr) : Inspection :=
  list.foldl (fun inspection e => (inspection.expr e).after) inspection

/-- A condition whose type is known has to be boolean. -/
def condition (inspection : Inspection) (statement : Conditional) (e : Expr) : Inspection :=
  let checked := inspection.expr e
  match checked.type with
  | none => checked.after
  | some type =>
    checked.after.reportIf (type ≠ .boolean) e.position (.nonBooleanCondition statement type)

end Inspection

end MiniJava
