import MiniJava.Syntax.Expr
import MiniJava.Text.CharClass

/-!
# Values of expressions

What an expression stands for where variables hold values: an integer, a truth value or a text.
Integers are unbounded, and a division by zero has no value. Floating-point numbers, characters and
texts with escapes are left out, and so are assignments and steps, which are no plain values.
-/

namespace MiniJava

open Text

inductive Value where
  | int (n : Int)
  | truth (b : Bool)
  | text (text : String)
deriving DecidableEq, Repr

/-- A value as it is shown, and as it is joined to a text. -/
def Value.shown : Value → String
  | int n => toString n
  | truth b => if b then "true" else "false"
  | text shown => shown

namespace Literal

def isOctalDigit (c : Char) : Bool := '0' ≤ c && c ≤ '7'

def octalValue (digits : List Char) : Nat :=
  digits.foldl (fun value c => 8 * value + digitValue c) 0

def integer? (text : String) : Option Int :=
  match text.toList with
  | '0' :: d :: digits =>
    if (d :: digits).all isOctalDigit then some (octalValue (d :: digits)) else none
  | digits => (magnitude? digits).map Int.ofNat

def value? : Literal → Option Value
  | number text => (integer? text).map .int
  | string text => if text.toList.contains '\\' then none else some (.text text)
  | bool b => some (.truth b)
  | char _ | null => none

end Literal

structure Division where
  quotient : Int → Int → Int
  remainder : Int → Int → Int

namespace Division

def truncated : Division := ⟨Int.tdiv, Int.tmod⟩

end Division

namespace BinaryOp

def ofInts? (division : Division) (a b : Int) : BinaryOp → Option Value
  | .add => some (.int (a + b))
  | .sub => some (.int (a - b))
  | .mul => some (.int (a * b))
  | .div => if b = 0 then none else some (.int (division.quotient a b))
  | .rem => if b = 0 then none else some (.int (division.remainder a b))
  | .eq => some (.truth (a = b))
  | .ne => some (.truth (a ≠ b))
  | .lt => some (.truth (a < b))
  | .le => some (.truth (a ≤ b))
  | .gt => some (.truth (b < a))
  | .ge => some (.truth (b ≤ a))
  | .or | .and | .bitOr | .bitXor | .bitAnd | .shl | .shr | .ushr => none

def ofTruths? (a b : Bool) : BinaryOp → Option Value
  | .or => some (.truth (a || b))
  | .and => some (.truth (a && b))
  | .eq => some (.truth (a = b))
  | .ne => some (.truth (a ≠ b))
  | _ => none

def result? (division : Division) (op : BinaryOp) : Value → Value → Option Value
  | .int a, .int b => op.ofInts? division a b
  | .truth a, .truth b => op.ofTruths? a b
  | .text a, b => if op = .add then some (.text (a ++ b.shown)) else none
  | .int a, .text b => if op = .add then some (.text ((Value.int a).shown ++ b)) else none
  | .truth a, .text b => if op = .add then some (.text ((Value.truth a).shown ++ b)) else none
  | .int _, .truth _ | .truth _, .int _ => none

def settles (op : BinaryOp) (left : Value) : Bool :=
  (op = .or && left = .truth true) || (op = .and && left = .truth false)

end BinaryOp

def UnaryOp.result? : UnaryOp → Value → Option Value
  | .neg, .int n => some (.int (-n))
  | .plus, .int n => some (.int n)
  | .not, .truth b => some (.truth !b)
  | _, _ => none

namespace Expr

/-- What an expression stands for under a way to divide. -/
def valueBy (read : String → Option Value) (division : Division) : Expr → Option Value
  | .literal value _ => value.value?
  | .name used _ => read used
  | .unary op operand => (operand.valueBy read division).bind op.result?
  | .binary op lhs rhs => do
    let left ← lhs.valueBy read division
    if op.settles left then return left
    op.result? division left (← rhs.valueBy read division)
  | .assign _ _ _ _ | .step _ _ _ _ => none

/-- What an expression stands for. -/
def value? (read : String → Option Value) (e : Expr) : Option Value := e.valueBy read .truncated

end Expr

/-- The two ways to divide agree on these integers. -/
def Division.Even (a b : Int) : Prop := b ∣ a ∨ (0 ≤ a ∧ 0 ≤ b) ∨ (a < 0 ∧ b < 0)

namespace Division

variable {a b : Int}

theorem even_iff (hb : b ≠ 0) : Even a b ↔ a.tdiv b = a.fdiv b := by
  rw [Int.tdiv_eq_fdiv, Even]
  by_cases hdivides : b ∣ a
  · simp [hdivides]
  · by_cases ha : 0 ≤ a
    · by_cases hpos : 0 ≤ b
      · simp [ha, hpos]
      · simp only [hdivides, ha, hpos, if_true, if_false, false_or, and_false]
        omega
    · by_cases hpos : 0 ≤ b
      · have hsign : b.sign = 1 := Int.sign_eq_one_of_pos (by omega)
        simp only [hdivides, ha, hpos, hsign, if_true, if_false, false_or, false_and]
        omega
      · have hsign : b.sign = -1 := Int.sign_eq_neg_one_of_neg (by omega)
        simp only [hdivides, ha, hpos, hsign, if_false, false_or, false_and]
        omega

end Division

namespace Expr

end Expr

end MiniJava
