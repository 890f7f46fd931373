/-!
# Python expressions

The expressions of emitted code, with the binding strengths of Python. Writing an expression puts
parentheses around an operand exactly where Python would group the text in another way, and around
a comparison that is compared, because Python would chain the two.
-/

namespace MiniJava.Target

inductive Operator where
  | or | and
  | eq | ne | lt | le | gt | ge
  | bitOr | bitXor | bitAnd
  | shl | shr
  | add | sub
  | mul | div | floorDiv | mod
deriving DecidableEq, Repr, Inhabited

namespace Operator

def symbol : Operator → String
  | or => "or"
  | and => "and"
  | eq => "=="
  | ne => "!="
  | lt => "<"
  | le => "<="
  | gt => ">"
  | ge => ">="
  | bitOr => "|"
  | bitXor => "^"
  | bitAnd => "&"
  | shl => "<<"
  | shr => ">>"
  | add => "+"
  | sub => "-"
  | mul => "*"
  | div => "/"
  | floorDiv => "//"
  | mod => "%"

/-- Binding strength; a larger number binds tighter. `not` has strength three. -/
def precedence : Operator → Nat
  | or => 1
  | and => 2
  | eq | ne | lt | le | gt | ge => 4
  | bitOr => 5
  | bitXor => 6
  | bitAnd => 7
  | shl | shr => 8
  | add | sub => 9
  | mul | div | floorDiv | mod => 10

end Operator

inductive Sign where
  | minus | plus | invert
deriving DecidableEq, Repr, Inhabited

def Sign.symbol : Sign → String
  | minus => "-"
  | plus => "+"
  | invert => "~"

/-- Numbers and quoted texts are written as they are given. -/
inductive Expr where
  | number (text : String)
  | string (text : String)
  | char (text : String)
  | bool (value : Bool)
  | noneValue
  | name (text : String)
  | member (holder text : String)
  | str (argument : Expr)
  | negation (operand : Expr)
  | signed (sign : Sign) (operand : Expr)
  | binary (op : Operator) (lhs rhs : Expr)
deriving DecidableEq, Repr, Inhabited

namespace Expr

def precedence : Expr → Nat
  | binary op _ _ => op.precedence
  | negation _ => 3
  | signed _ _ => 11
  | _ => 12

/-- Whether an operand of strength `own` needs parentheses under an operator of strength
`parent`. -/
def needsParens (parent : Nat) (onRight : Bool) (own : Nat) : Bool :=
  own < parent || (onRight && own = parent) || (own = 4 && parent = 4)

def enclose (parent : Nat) (onRight : Bool) (own : Nat) (text : String) : String :=
  if needsParens parent onRight own then "(" ++ text ++ ")" else text

def toText : Expr → String
  | number text => text
  | string text => "\"" ++ text ++ "\""
  | char text => "'" ++ text ++ "'"
  | bool true => "True"
  | bool false => "False"
  | noneValue => "None"
  | name text => text
  | member holder text => holder ++ "." ++ text
  | str argument => "str(" ++ argument.toText ++ ")"
  | negation operand => "not " ++ enclose 3 false operand.precedence operand.toText
  | signed sign operand => sign.symbol ++ enclose 11 false operand.precedence operand.toText
  | binary op lhs rhs =>
    enclose op.precedence false lhs.precedence lhs.toText ++ " " ++ op.symbol ++ " " ++
      enclose op.precedence true rhs.precedence rhs.toText

end Expr

end MiniJava.Target
