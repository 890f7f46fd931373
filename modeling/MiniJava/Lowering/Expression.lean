import MiniJava.Scope.SymbolTable
import MiniJava.Target.Expr

/-!
# Lowering expressions

An expression becomes a Python expression of the same shape. A division of integers becomes a floor
division, and the sides of a string concatenation that are no strings are turned into text. A name
that means a field of the innermost class is reached through the class or through `self`. Python has
no unsigned shift, and no assignment or step inside an expression.
-/

namespace MiniJava

/-- What Python lacks. -/
inductive Construct where
  | unsignedShift
  | unsignedShiftAssignment
  | embeddedAssignment
  | embeddedStep (op : StepOp)
deriving DecidableEq, Repr, Inhabited

def Construct.describe : Construct → String
  | unsignedShift => "'>>>'"
  | unsignedShiftAssignment => "'>>>='"
  | embeddedAssignment => "an assignment inside an expression"
  | embeddedStep op => "'" ++ op.symbol ++ "' inside an expression"

structure Untranslatable where
  construct : Construct
  position : Position
deriving DecidableEq, Repr, Inhabited

def Untranslatable.message (error : Untranslatable) : String :=
  "Cannot translate " ++ error.construct.describe ++ " at " ++ error.position.describe

/-- How a lowering ends without a result: it reports what it cannot translate, or it is cut off
without a report where 64-bit arithmetic overflows. -/
inductive Failure where
  | untranslatable (error : Untranslatable)
  | overflow
deriving DecidableEq, Repr, Inhabited

def Failure.message : Failure → String
  | untranslatable error => error.message
  | overflow => "Arithmetic overflow"

inductive MethodKind where
  | ofClass | ofInstance
deriving DecidableEq, Repr, Inhabited

/-- A class under way: its name and the number of the scope that holds its fields. -/
structure EnclosingClass where
  name : String
  fieldScope : Nat
deriving DecidableEq, Repr, Inhabited

/-- Where code stands: the innermost class around it and the kind of method around it. -/
structure Place where
  enclosing : Option EnclosingClass
  method : Option MethodKind
deriving DecidableEq, Repr, Inhabited

namespace Place

def outside : Place := ⟨none, none⟩

/-- What a name's field is reached through, if the name means a field of the innermost class. -/
def fieldHolder? (place : Place) (table : SymbolTable) (name : String) : Option String :=
  match place.enclosing, table.resolve? name, place.method with
  | some cls, some (scope, _), some kind =>
    if scope = cls.fieldScope then
      match kind with
      | .ofClass => some cls.name
      | .ofInstance => some "self"
    else none
  | _, _, _ => none

def reference (place : Place) (table : SymbolTable) (name : String) : Target.Expr :=
  match place.fieldHolder? table name with
  | some holder => .member holder name
  | none => .name name

end Place

namespace Lowering

def literal : Literal → Target.Expr
  | .number text => .number text
  | .string text => .string text
  | .char text => .char text
  | .bool value => .bool value
  | .null => .noneValue

/-- Whether both sides of a division are of integral types. -/
def dividesIntegers (lhs rhs : Option ValueType) : Bool :=
  lhs.any ValueType.isIntegral && rhs.any ValueType.isIntegral

def operator? (lhs rhs : Option ValueType) : BinaryOp → Option Target.Operator
  | .or => some .or
  | .and => some .and
  | .bitOr => some .bitOr
  | .bitXor => some .bitXor
  | .bitAnd => some .bitAnd
  | .eq => some .eq
  | .ne => some .ne
  | .lt => some .lt
  | .le => some .le
  | .gt => some .gt
  | .ge => some .ge
  | .shl => some .shl
  | .shr => some .shr
  | .ushr => none
  | .add => some .add
  | .sub => some .sub
  | .mul => some .mul
  | .div => some (if dividesIntegers lhs rhs then .floorDiv else .div)
  | .rem => some .mod

def unary : UnaryOp → Target.Expr → Target.Expr
  | .not => .negation
  | .neg => .signed .minus
  | .plus => .signed .plus
  | .bitNot => .signed .invert

/-- A side of a concatenation as text. -/
def asText (type : Option ValueType) (side : Target.Expr) : Target.Expr :=
  if type = some .string then side else .str side

def binary (op : BinaryOp) (operator : Target.Operator) (lhsType rhsType : Option ValueType)
    (lhs rhs : Target.Expr) : Target.Expr :=
  if op.joinsStrings lhsType rhsType then
    .binary operator (asText lhsType lhs) (asText rhsType rhs)
  else .binary operator lhs rhs

def expr (place : Place) (table : SymbolTable) : Expr → Except Failure Target.Expr
  | .literal value _ => return literal value
  | .name name _ => return place.reference table name
  | .binary op lhs rhs =>
    match operator? (table.typeOf lhs) (table.typeOf rhs) op with
    | none => throw (.untranslatable ⟨.unsignedShift, lhs.position⟩)
    | some operator => do
      let left ← expr place table lhs
      let right ← expr place table rhs
      return binary op operator (table.typeOf lhs) (table.typeOf rhs) left right
  | .unary op operand => return unary op (← expr place table operand)
  | .assign _ _ _ position => throw (.untranslatable ⟨.embeddedAssignment, position⟩)
  | .step _ op _ position => throw (.untranslatable ⟨.embeddedStep op, position⟩)

end Lowering

end MiniJava
