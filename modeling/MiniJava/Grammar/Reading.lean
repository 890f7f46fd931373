import MiniJava.Grammar.SyntaxError

/-!
# Reading a token table

A reader takes tokens from the front of a table and gives a value and the tokens that are left.
What is left is shorter than a bound, so readers that call each other come to an end. A reader that
has to take a token is bounded by the length of its table, and one that may take none by the next
number. Readers that follow each other keep the bound of the first.
-/

namespace MiniJava.Grammar

/-- A value read from the front of a table, with fewer than `n` tokens left. -/
structure Parsed (α : Type) (n : Nat) where
  value : α
  rest : List Token
  lt : rest.length < n

namespace Parsed

variable {α : Type} {m n : Nat}

/-- A value in front of `rest`, which may be the table that is read or the tail of it. -/
def here (value : α) (rest : List Token) : Parsed α (rest.length + 1) :=
  ⟨value, rest, Nat.lt_succ_self _⟩

/-- What is read behind other tokens. -/
def behind (parsed : Parsed α m) (lt : m < n) : Parsed α n :=
  ⟨parsed.value, parsed.rest, Nat.lt_trans parsed.lt lt⟩

/-- What may be read behind other tokens. -/
def optional (parsed : Parsed α (m + 1)) (lt : m < n) : Parsed α n :=
  ⟨parsed.value, parsed.rest, Nat.lt_of_lt_of_le parsed.lt lt⟩

/-- What is read behind tokens that may be none. -/
def first (parsed : Parsed α m) (lt : m < n + 1) : Parsed α n :=
  ⟨parsed.value, parsed.rest, Nat.lt_of_lt_of_le parsed.lt (Nat.le_of_lt_succ lt)⟩

/-- What is read behind one token. -/
def later (parsed : Parsed α m) : Parsed α (m + 1) :=
  ⟨parsed.value, parsed.rest, Nat.lt_succ_of_lt parsed.lt⟩

end Parsed

abbrev Reading (α : Type) (n : Nat) := Except SyntaxError (Parsed α n)

namespace Reading

variable {α : Type} {m n : Nat}

def behind (reading : Reading α m) (lt : m < n) : Reading α n := reading.map (·.behind lt)

def optional (reading : Reading α (m + 1)) (lt : m < n) : Reading α n :=
  reading.map (·.optional lt)

def first (reading : Reading α m) (lt : m < n + 1) : Reading α n := reading.map (·.first lt)

def later (reading : Reading α m) : Reading α (m + 1) := reading.map (·.later)

end Reading

def fail {α : Type} {n : Nat} (expected : Expected) (tokens : List Token) : Reading α n :=
  .error (.atNext expected tokens)

def nextIs (lexeme : String) : List Token → Bool
  | [] => false
  | token :: _ => token.lexeme = lexeme

/-- Keywords, operators and punctuation are told by their lexeme alone. -/
def expect (lexeme : String) : (tokens : List Token) → Reading Token tokens.length
  | [] => fail (.lexeme lexeme) []
  | token :: rest =>
    if token.lexeme = lexeme then .ok (.here token rest) else fail (.lexeme lexeme) (token :: rest)

def identifier : (tokens : List Token) → Reading Token tokens.length
  | [] => fail .identifier []
  | token :: rest =>
    if token.kind = .identifier then .ok (.here token rest) else fail .identifier (token :: rest)

/-- The next token if it is `lexeme`. -/
def skip? {n : Nat} (lexeme : String) (tokens : List Token) (lt : tokens.length < n) :
    Option (Parsed Token n) :=
  match expect lexeme tokens with
  | .ok parsed => some (parsed.behind lt)
  | .error _ => none

end MiniJava.Grammar
