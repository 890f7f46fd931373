import MiniJava.Proofs.Python.Token

/-!
# The grammar of Python expressions

From loosest to tightest, with their strengths: `or`, `and`, `not`, comparisons, which chain,
`|`, `^`, `&`, shifts, sums, products, signs, and last atoms, attributes and calls. Operators group
to the left, and a chain of comparisons is one tree.
-/

namespace MiniJava.Python

/-- How Python groups an expression. Operators are kept as they are written. -/
inductive Tree where
  | number (text : String)
  | string (text : String)
  | constant (word : String)
  | name (word : String)
  | member (holder : Tree) (word : String)
  | call (callee : Tree) (arguments : List Tree)
  | sign (symbol : String) (operand : Tree)
  | negation (operand : Tree)
  | comparison (first : Tree) (others : List (String × Tree))
  | binary (symbol : String) (lhs rhs : Tree)

def Token.text : Token → String
  | word text => text
  | number text => text
  | string text => text
  | symbol text => text

def constants : List String := ["True", "False", "None"]

def strengths : List (Token × Nat) :=
  [(.word "or", 1), (.word "and", 2), (.symbol "==", 4), (.symbol "!=", 4), (.symbol "<", 4),
    (.symbol "<=", 4), (.symbol ">", 4), (.symbol ">=", 4), (.symbol "|", 5), (.symbol "^", 6),
    (.symbol "&", 7), (.symbol "<<", 8), (.symbol ">>", 8), (.symbol "+", 9), (.symbol "-", 9),
    (.symbol "*", 10), (.symbol "/", 10), (.symbol "//", 10), (.symbol "%", 10)]

def strength? (token : Token) : Option Nat := strengths.lookup token

def isSign (token : Token) : Bool :=
  [.symbol "-", .symbol "+", Token.symbol "~"].contains token

def atom? : Token → Option Tree
  | .number text => some (.number text)
  | .string text => some (.string text)
  | .word text =>
    if isName text then some (.name text)
    else if constants.contains text then some (.constant text)
    else none
  | .symbol _ => none

theorem atom?_name {word : String} (h : isName word = true) :
    atom? (.word word) = some (.name word) := by rw [atom?, if_pos h]

theorem atom?_constant {word : String} (h : word ∈ constants) :
    atom? (.word word) = some (.constant word) := by
  have hall : ∀ word ∈ constants, isName word = false := by decide
  rw [atom?, hall word h, if_neg Bool.false_ne_true, if_pos (by simpa using h)]

inductive NonTerminal where
  | level (strength : Nat)
  | chain
  | primary
  | openCall

/-- The tokens are of the given form, and the tree is what they stand for. -/
inductive Derives : NonTerminal → List Token → Tree → Prop
  | tighter {n : Nat} {tokens : List Token} {e : Tree} : Derives (.level (n + 1)) tokens e →
      Derives (.level n) tokens e
  | binary {n : Nat} {op : Token} {left right : List Token} {lhs rhs : Tree} :
      strength? op = some n → n ≠ 4 → Derives (.level n) left lhs →
      Derives (.level (n + 1)) right rhs →
      Derives (.level n) (left ++ op :: right) (.binary op.text lhs rhs)
  | negation {tokens : List Token} {e : Tree} : Derives (.level 3) tokens e →
      Derives (.level 3) (.word "not" :: tokens) (.negation e)
  | compare {op : Token} {left right : List Token} {lhs rhs : Tree} : strength? op = some 4 →
      Derives (.level 5) left lhs → Derives (.level 5) right rhs →
      Derives .chain (left ++ op :: right) (.comparison lhs [(op.text, rhs)])
  | compareAgain {op : Token} {left right : List Token} {first rhs : Tree}
      {others : List (String × Tree)} : strength? op = some 4 →
      Derives .chain left (.comparison first others) → Derives (.level 5) right rhs →
      Derives .chain (left ++ op :: right) (.comparison first (others ++ [(op.text, rhs)]))
  | chain {tokens : List Token} {e : Tree} : Derives .chain tokens e → Derives (.level 4) tokens e
  | sign {op : Token} {tokens : List Token} {e : Tree} : isSign op = true →
      Derives (.level 11) tokens e → Derives (.level 11) (op :: tokens) (.sign op.text e)
  | primary {tokens : List Token} {e : Tree} : Derives .primary tokens e →
      Derives (.level 11) tokens e
  | atom {token : Token} {e : Tree} : atom? token = some e → Derives .primary [token] e
  | group {tokens : List Token} {e : Tree} : Derives (.level 1) tokens e →
      Derives .primary (.symbol "(" :: (tokens ++ [.symbol ")"])) e
  | member {tokens : List Token} {holder : Tree} {word : String} :
      Derives .primary tokens holder → isName word = true →
      Derives .primary (tokens ++ [.symbol ".", .word word]) (.member holder word)
  | callEmpty {tokens : List Token} {callee : Tree} : Derives .primary tokens callee →
      Derives .primary (tokens ++ [.symbol "(", .symbol ")"]) (.call callee [])
  | argument {tokens right : List Token} {callee e : Tree} : Derives .primary tokens callee →
      Derives (.level 1) right e →
      Derives .openCall (tokens ++ .symbol "(" :: right) (.call callee [e])
  | argumentAgain {left right : List Token} {callee e : Tree} {arguments : List Tree} :
      Derives .openCall left (.call callee arguments) → Derives (.level 1) right e →
      Derives .openCall (left ++ .symbol "," :: right) (.call callee (arguments ++ [e]))
  | call {tokens : List Token} {e : Tree} : Derives .openCall tokens e →
      Derives .primary (tokens ++ [.symbol ")"]) e

theorem Derives.loosen {m n : Nat} {tokens : List Token} {e : Tree}
    (h : Derives (.level m) tokens e) (hle : n ≤ m) : Derives (.level n) tokens e := by
  induction hle with
  | refl => exact h
  | step _ ih => exact ih h.tighter

/-- Python reads the text as the tree. -/
def Reads (text : String) (e : Tree) : Prop :=
  ∃ tokens, tokens? text.toList = some tokens ∧ Derives (.level 1) tokens e

end MiniJava.Python
