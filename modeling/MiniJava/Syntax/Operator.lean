/-!
# Operators

The binary operators with their binding strength, the unary operators, and the steps `++` and `--`.
-/

namespace MiniJava

inductive BinaryOp where
  | or | and
  | bitOr | bitXor | bitAnd
  | eq | ne
  | lt | le | gt | ge
  | shl | shr | ushr
  | add | sub
  | mul | div | rem
deriving DecidableEq, Repr, Inhabited

namespace BinaryOp

def all : List BinaryOp :=
  [or, and, bitOr, bitXor, bitAnd, eq, ne, lt, le, gt, ge, shl, shr, ushr, add, sub, mul, div, rem]

def symbol : BinaryOp → String
  | or => "||"
  | and => "&&"
  | bitOr => "|"
  | bitXor => "^"
  | bitAnd => "&"
  | eq => "=="
  | ne => "!="
  | lt => "<"
  | le => "<="
  | gt => ">"
  | ge => ">="
  | shl => "<<"
  | shr => ">>"
  | ushr => ">>>"
  | add => "+"
  | sub => "-"
  | mul => "*"
  | div => "/"
  | rem => "%"

def ofSymbol? (text : String) : Option BinaryOp := all.find? fun op => op.symbol = text

/-- Binding strength; a larger number binds tighter. -/
def precedence : BinaryOp → Nat
  | or => 1
  | and => 2
  | bitOr => 3
  | bitXor => 4
  | bitAnd => 5
  | eq | ne => 6
  | lt | le | gt | ge => 7
  | shl | shr | ushr => 8
  | add | sub => 9
  | mul | div | rem => 10

def isComparison : BinaryOp → Bool
  | eq | ne | lt | le | gt | ge => true
  | _ => false

def isLogical : BinaryOp → Bool
  | or | and => true
  | _ => false

def isArithmetic : BinaryOp → Bool
  | add | sub | mul | div | rem => true
  | _ => false

theorem mem_all (op : BinaryOp) : op ∈ all := by cases op <;> decide

@[simp] theorem ofSymbol?_symbol (op : BinaryOp) : ofSymbol? op.symbol = some op := by
  cases op <;> decide

theorem symbol_of_ofSymbol? {text : String} {op : BinaryOp} (h : ofSymbol? text = some op) :
    op.symbol = text := by simpa using List.find?_some h

theorem precedence_pos (op : BinaryOp) : 0 < op.precedence := by cases op <;> decide

theorem precedence_le_ten (op : BinaryOp) : op.precedence ≤ 10 := by cases op <;> decide

end BinaryOp

inductive UnaryOp where
  | not | neg | plus | bitNot
deriving DecidableEq, Repr, Inhabited

namespace UnaryOp

def symbol : UnaryOp → String
  | not => "!"
  | neg => "-"
  | plus => "+"
  | bitNot => "~"

def all : List UnaryOp := [not, neg, plus, bitNot]

def ofSymbol? (text : String) : Option UnaryOp := all.find? fun op => op.symbol = text

@[simp] theorem ofSymbol?_symbol (op : UnaryOp) : ofSymbol? op.symbol = some op := by
  cases op <;> decide

theorem symbol_of_ofSymbol? {text : String} {op : UnaryOp} (h : ofSymbol? text = some op) :
    op.symbol = text := by simpa using List.find?_some h

end UnaryOp

inductive StepOp where
  | increment | decrement
deriving DecidableEq, Repr, Inhabited

namespace StepOp

def symbol : StepOp → String
  | increment => "++"
  | decrement => "--"

def ofSymbol? (text : String) : Option StepOp :=
  [increment, decrement].find? fun op => op.symbol = text

@[simp] theorem ofSymbol?_symbol (op : StepOp) : ofSymbol? op.symbol = some op := by
  cases op <;> decide

theorem symbol_of_ofSymbol? {text : String} {op : StepOp} (h : ofSymbol? text = some op) :
    op.symbol = text := by simpa using List.find?_some h

end StepOp

end MiniJava
