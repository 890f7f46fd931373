import MiniJava.Target.Module

/-!
# Kinds of emitted operands

Python computes with two numbers, and `+` also joins two strings; on a number and a string it fails.
The kind of an emitted expression follows from the kinds of what its names hold. The operations of
emitted code are listed in the order of the text. An update such as `x += y` is one, with its target
on the left. The `%` of a formatted print call is none: on its right stands a tuple.
-/

namespace MiniJava.Target

inductive Kind where
  | number | text
deriving DecidableEq, Repr

def Operator.computes : Operator → Bool
  | add | sub | mul | div | floorDiv | mod | lt | le | gt | ge => true
  | or | and | eq | ne | bitOr | bitXor | bitAnd | shl | shr => false

def Operator.kind? (op : Operator) (lhs rhs : Option Kind) : Option Kind :=
  match op with
  | add => if lhs = rhs then lhs else none
  | sub | mul | div | floorDiv | mod | bitOr | bitXor | bitAnd | shl | shr =>
    if lhs = some .number ∧ rhs = some .number then some .number else none
  | or | and | eq | ne | lt | le | gt | ge => none

def Expr.kind? (names : String → Option Kind) : Expr → Option Kind
  | number _ => some .number
  | string _ | char _ | str _ => some .text
  | name text => names text
  | member _ text => names text
  | signed _ operand => if operand.kind? names = some .number then some .number else none
  | binary op lhs rhs => op.kind? (lhs.kind? names) (rhs.kind? names)
  | bool _ | noneValue | negation _ => none

/-- The operator that an update applies to its target and its value, if it is arithmetic. -/
def UpdateOp.operator? : UpdateOp → Option Operator
  | floorDiv => some .floorDiv
  | applying .add => some .add
  | applying .sub => some .sub
  | applying .mul => some .mul
  | applying .div => some .div
  | applying .rem => some .mod
  | applying _ => none

structure Application where
  op : Operator
  lhs : Expr
  rhs : Expr
deriving DecidableEq, Repr

/-- Both operands are numbers, or both are strings and `+` joins them. -/
def Application.Sorted (names : String → Option Kind) (application : Application) : Prop :=
  application.lhs.kind? names = some .number ∧ application.rhs.kind? names = some .number ∨
    application.op = .add ∧
      application.lhs.kind? names = some .text ∧ application.rhs.kind? names = some .text

instance (names : String → Option Kind) (application : Application) :
    Decidable (application.Sorted names) := inferInstanceAs (Decidable (_ ∨ _))

def Expr.applications : Expr → List Application
  | .str argument => argument.applications
  | .negation operand => operand.applications
  | .signed _ operand => operand.applications
  | .binary op lhs rhs =>
    lhs.applications ++ rhs.applications ++ if op.computes then [⟨op, lhs, rhs⟩] else []
  | .number _ | .string _ | .char _ | .bool _ | .noneValue | .name _ | .member _ _ => []

mutual

def Stmt.applications : Stmt → List Application
  | .assign target value => target.applications ++ value.applications
  | .update target op value =>
    target.applications ++ value.applications ++ op.operator?.toList.map (⟨·, target, value⟩)
  | .expression expr => expr.applications
  | .ifElse condition body alternative =>
    condition.applications ++ allApplications body ++ alternative.applications
  | .whileLoop condition body => condition.applications ++ allApplications body
  | .forRange counter start stop _ body =>
    counter.applications ++ start.applications ++ stop.applications ++ allApplications body
  | .tryExcept body handlers none => allApplications body ++ handlerApplications handlers
  | .tryExcept body handlers (some cleanup) =>
    allApplications body ++ handlerApplications handlers ++ allApplications cleanup
  | .print none _ => []
  | .print (some value) _ => value.applications
  | .printFormatted format values => format.applications ++ values.flatMap Expr.applications
  | .returns none => []
  | .returns (some value) => value.applications
  | .breaks | .continues => []
  | .function _ _ _ body => allApplications body
  | .classDef _ body => allApplications body

def allApplications : List Stmt → List Application
  | [] => []
  | first :: rest => first.applications ++ allApplications rest

def Alternative.applications : Alternative → List Application
  | .nothing => []
  | .elseIf condition body alternative =>
    condition.applications ++ allApplications body ++ alternative.applications
  | .otherwise body => allApplications body

def handlerApplications : List (Handler Stmt) → List Application
  | [] => []
  | ⟨_, _, body⟩ :: rest => allApplications body ++ handlerApplications rest

end

def Chunk.applications : Chunk → List Application
  | .definition stmt => stmt.applications
  | .script body => allApplications body

/-- The operations of a module. -/
def Module.applications (m : Module) : List Application := m.chunks.flatMap Chunk.applications

theorem allApplications_append (body rest : List Stmt) :
    allApplications (body ++ rest) = allApplications body ++ allApplications rest := by
  induction body with
  | nil => rfl
  | cons first body ih =>
      rw [List.cons_append, allApplications, allApplications, ih, List.append_assoc]

end MiniJava.Target
