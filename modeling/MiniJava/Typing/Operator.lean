import MiniJava.Typing.ValueType

/-!
# Types of operations

The result type of an operator from the types of its operands. The type of an operand may be
unknown; then the result may still be known, because a comparison always gives a boolean and a
string on either side makes `+` a concatenation.
-/

namespace MiniJava

inductive Typing where
  | typed (type : ValueType)
  | unknown
  | invalid
deriving DecidableEq, Repr, Inhabited

def Typing.type? : Typing → Option ValueType
  | typed type => some type
  | _ => none

/-- A result that is valid only under a condition. -/
def Typing.guarded (condition : Bool) (type : ValueType) : Typing :=
  if condition then .typed type else .invalid

namespace BinaryOp

def joinsStrings (op : BinaryOp) (lhs rhs : Option ValueType) : Bool :=
  op = .add && (lhs = some .string || rhs = some .string)

/-- The type of an operation on operands of known types. -/
def typingOf (op : BinaryOp) (lhs rhs : ValueType) : Typing :=
  let booleans := lhs = .boolean && rhs = .boolean
  let numbers := lhs.isNumeric && rhs.isNumeric
  let integers := lhs.isIntegral && rhs.isIntegral
  match op with
  | .or | .and => .guarded booleans .boolean
  | .eq | .ne => .typed .boolean
  | .lt | .le | .gt | .ge => .guarded numbers .boolean
  | .add | .sub | .mul | .div | .rem => .guarded numbers (.promote lhs rhs)
  | .bitAnd | .bitOr | .bitXor =>
    if booleans then .typed .boolean else .guarded integers (.promote lhs rhs)
  | .shl | .shr | .ushr => .guarded integers (.promote lhs .int)

def typing (op : BinaryOp) (lhs rhs : Option ValueType) : Typing :=
  if op.joinsStrings lhs rhs then .typed .string
  else
    match lhs, rhs with
    | some lhs, some rhs => op.typingOf lhs rhs
    | _, _ => if op.isComparison || op.isLogical then .typed .boolean else .unknown

end BinaryOp

namespace UnaryOp

def typing (op : UnaryOp) : Option ValueType → Typing
  | none => if op = .not then .typed .boolean else .unknown
  | some operand =>
    match op with
    | .not => .guarded (operand = .boolean) .boolean
    | .neg | .plus => .guarded operand.isNumeric (.promote operand .int)
    | .bitNot => .guarded operand.isIntegral (.promote operand .int)

end UnaryOp

end MiniJava
