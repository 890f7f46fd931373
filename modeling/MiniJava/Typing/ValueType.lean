import MiniJava.Syntax.Stmt

/-!
# Types of values

The primitive types with their widening order, strings, `null`, `void`, and all other types, which
are known by their written name only.
-/

namespace MiniJava

inductive ValueType where
  | byte | short | char | int | long | float | double
  | boolean
  | string
  | null
  | void
  | reference (written : String)
deriving DecidableEq, Repr, Inhabited

namespace ValueType

/-- Arrays are references; a name that is no primitive type is a class. -/
def ofTypeName (type : TypeName) : ValueType :=
  if type.dimensions > 0 then .reference type.written
  else
    match type.name with
    | "byte" => .byte
    | "short" => .short
    | "char" => .char
    | "int" => .int
    | "long" => .long
    | "float" => .float
    | "double" => .double
    | "boolean" => .boolean
    | "String" | "string" => .string
    | "void" => .void
    | name => .reference name

def ofLiteral : Literal → ValueType
  | .number text => if (Literal.number text).isIntegral then .int else .double
  | .string _ => .string
  | .char _ => .char
  | .bool _ => .boolean
  | .null => .null

/-- The place of a numeric type in the widening order, from one; zero for all other types. -/
def rank : ValueType → Nat
  | byte => 1
  | short | char => 2
  | int => 3
  | long => 4
  | float => 5
  | double => 6
  | _ => 0

def isNumeric (type : ValueType) : Bool := 1 ≤ type.rank

def isIntegral (type : ValueType) : Bool := 1 ≤ type.rank && type.rank ≤ 4

/-- Types whose values may be `null`. -/
def isReference : ValueType → Bool
  | string | reference _ => true
  | _ => false

def wider (a b : ValueType) : ValueType := if a.rank ≤ b.rank then b else a

/-- The type in which an operator computes: the wider side, and at least `int`. -/
def promote (lhs rhs : ValueType) : ValueType := wider (wider lhs rhs) .int

/-- Whether a variable of type `target` may hold a value of type `source`: a value of the same
type, `null` if the target is a reference, any reference for any other, and a number that widens.
Nothing widens to `char`, and `char` does not widen to `short`. -/
def accepts (target source : ValueType) : Bool :=
  target = source ||
    match target, source with
    | target, .null => target.isReference
    | .reference _, .reference _ => true
    | .char, _ => false
    | .short, .char => false
    | target, source => target.isNumeric && source.isNumeric && source.rank ≤ target.rank

def written : ValueType → String
  | byte => "byte"
  | short => "short"
  | char => "char"
  | int => "int"
  | long => "long"
  | float => "float"
  | double => "double"
  | boolean => "boolean"
  | string => "String"
  | null => "null"
  | void => "void"
  | reference name => name

@[simp] theorem accepts_self (type : ValueType) : type.accepts type = true := by simp [accepts]

theorem isNumeric_of_isIntegral {type : ValueType} (h : type.isIntegral = true) :
    type.isNumeric = true := by
  simp only [isIntegral, Bool.and_eq_true] at h
  exact h.1

end ValueType

end MiniJava
