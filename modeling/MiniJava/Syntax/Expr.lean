import MiniJava.Position
import MiniJava.Syntax.Operator

/-!
# Expressions

Literals, names and operators. An assignment is an expression, and so is a step such as `i++`; both
have a plain name as their target. A binary or unary expression stands where its leftmost operand
does.
-/

namespace MiniJava

/-- Numbers keep their written form, strings and characters the text between their quotes. -/
inductive Literal where
  | number (text : String)
  | string (text : String)
  | char (text : String)
  | bool (value : Bool)
  | null
deriving DecidableEq, Repr, Inhabited

/-- A number is integral if it is written without a point and without an exponent. -/
def Literal.isIntegral : Literal → Bool
  | .number text => text.toList.all fun c => c != '.' && c != 'e' && c != 'E'
  | _ => false

/-- Where the `++` or `--` of a step is written. -/
inductive StepForm where
  | before | behind
deriving DecidableEq, Repr, Inhabited

inductive Expr where
  | literal (value : Literal) (position : Position)
  | name (name : String) (position : Position)
  | binary (op : BinaryOp) (lhs rhs : Expr)
  | unary (op : UnaryOp) (operand : Expr)
  | assign (target : String) (op : Option BinaryOp) (value : Expr) (position : Position)
  | step (target : String) (op : StepOp) (form : StepForm) (position : Position)
deriving DecidableEq, Repr, Inhabited

def Expr.position : Expr → Position
  | .literal _ position => position
  | .name _ position => position
  | .binary _ lhs _ => lhs.position
  | .unary _ operand => operand.position
  | .assign _ _ _ position => position
  | .step _ _ _ position => position

end MiniJava
