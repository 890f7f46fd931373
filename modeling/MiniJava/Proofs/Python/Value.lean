import MiniJava.Proofs.Evaluation.Value
import MiniJava.Proofs.Python.Grammar

/-!
# Values of Python expressions

What the tree of a Python expression stands for in an environment of names and of attributes of
named objects. A truth value counts as one or zero in arithmetic, a chain of comparisons stops at
the first that fails, and `or` and `and` give the operand that decides. Floating-point numbers,
texts with escapes, bit operations and the built-in names other than `str` are left out: such
expressions have no value here.
-/

namespace MiniJava

open Text

namespace Python

/-- What names and attributes of named objects are bound to. -/
structure Env where
  names : String → Option Value
  members : String → String → Option Value

end Python

namespace Value

def str : Value → String
  | int n => toString n
  | truth b => if b then "True" else "False"
  | text written => written

def holds : Value → Bool
  | int n => n ≠ 0
  | truth b => b
  | text written => written ≠ ""

def number? : Value → Option Int
  | int n => some n
  | truth b => some (if b then 1 else 0)
  | text _ => none

end Value

namespace Python

def integer? (text : String) : Option Int :=
  if isDecimal text.toList then (magnitude? text.toList).map Int.ofNat else none

def unquoted? (text : String) : Option String :=
  let body := (text.toList.drop 1).dropLast
  if body.contains '\\' then none else some (String.ofList body)

def constant? (word : String) : Option Value :=
  if word = "True" then some (.truth true)
  else if word = "False" then some (.truth false)
  else none

def arithmetic? (symbol : String) (a b : Int) : Option Int :=
  match symbol with
  | "+" => some (a + b)
  | "-" => some (a - b)
  | "*" => some (a * b)
  | "//" => if b = 0 then none else some (a.fdiv b)
  | "%" => if b = 0 then none else some (a.fmod b)
  | _ => none

def order? (symbol : String) (a b : Int) : Option Bool :=
  match symbol with
  | "==" => some (a = b)
  | "!=" => some (a ≠ b)
  | "<" => some (a < b)
  | "<=" => some (a ≤ b)
  | ">" => some (b < a)
  | ">=" => some (b ≤ a)
  | _ => none

def compare? (symbol : String) (left right : Value) : Option Bool := do
  order? symbol (← left.number?) (← right.number?)

def combine? (symbol : String) (left right : Value) : Option Value :=
  if symbol = "or" || symbol = "and" then some right
  else
    match left, right with
    | .text a, .text b => if symbol = "+" then some (.text (a ++ b)) else none
    | left, right => do return .int (← arithmetic? symbol (← left.number?) (← right.number?))

def settles (symbol : String) (left : Value) : Bool :=
  (symbol = "or" && left.holds) || (symbol = "and" && !left.holds)

def sign? (symbol : String) (operand : Value) : Option Value := do
  let n ← operand.number?
  match symbol with
  | "-" => some (.int (-n))
  | "+" => some (.int n)
  | _ => none

def call? (env : Env) (callee : Tree) (arguments : List Value) : Option Value :=
  match callee, arguments with
  | .name word, [argument] =>
    if word = "str" && (env.names "str").isNone then some (.text argument.str) else none
  | _, _ => none

def attribute? (env : Env) (holder : Tree) (word : String) : Option Value :=
  match holder with
  | .name object => env.members object word
  | _ => none

mutual

def Tree.value? (env : Env) : Tree → Option Value
  | .number text => (integer? text).map .int
  | .string text => (unquoted? text).map .text
  | .constant word => constant? word
  | .name word => env.names word
  | .member holder word => attribute? env holder word
  | .call callee arguments => (values? env arguments).bind (call? env callee)
  | .sign symbol operand => (operand.value? env).bind (sign? symbol)
  | .negation operand => (operand.value? env).map fun value => .truth !value.holds
  | .comparison first others => (first.value? env).bind fun left => (chain? env left others).map .truth
  | .binary symbol lhs rhs => do
    let left ← lhs.value? env
    if settles symbol left then return left
    combine? symbol left (← rhs.value? env)

def values? (env : Env) : List Tree → Option (List Value)
  | [] => some []
  | first :: rest => do return (← first.value? env) :: (← values? env rest)

def chain? (env : Env) (left : Value) : List (String × Tree) → Option Bool
  | [] => some true
  | (symbol, rhs) :: rest => do
    let right ← rhs.value? env
    if ← compare? symbol left right then chain? env right rest else return false

end

end Python

end MiniJava
