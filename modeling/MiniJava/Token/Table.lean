import MiniJava.Token.Lexeme

/-!
# Token tables

A text is split lexeme by lexeme until no rule applies to what is left; the token table keeps the
tokens that are not comments, blanks or newlines.
-/

namespace MiniJava

namespace Token

/-- The lexemes of a text that begins at `p`, skipped ones included. -/
def scan (p : Position) : List Char → List Token
  | [] => []
  | c :: rest =>
    match Lexeme.read? c rest with
    | none => []
    | some (kind, n) =>
      ⟨kind, String.ofList (c :: rest.take n), p⟩ ::
        scan (p.advance (c :: rest.take n)) (rest.drop n)
termination_by text => text.length
decreasing_by simp only [List.length_drop, List.length_cons]; omega

@[simp] theorem scan_nil (p : Position) : scan p [] = [] := by rw [scan]

theorem scan_cons (p : Position) {c : Char} {rest : List Char} {kind : TokenKind} {n : Nat}
    (h : Lexeme.read? c rest = some (kind, n)) :
    scan p (c :: rest) = ⟨kind, String.ofList (c :: rest.take n), p⟩ ::
      scan (p.advance (c :: rest.take n)) (rest.drop n) := by
  rw [scan, h]

/-- A token's line in a listing: position, kind and lexeme in columns. -/
def row (token : Token) : String :=
  pad 8 token.position.toText ++ pad 22 token.kind.label ++ token.lexeme
where
  pad (width : Nat) (text : String) : String :=
    text ++ String.ofList (List.replicate (width - text.length) ' ')

def listing (tokens : List Token) : String :=
  String.join (tokens.map fun token => token.row ++ "\n")

end Token

/-- The token table of a source text. -/
def tokenize (source : String) : List Token :=
  (Token.scan .start source.toList).filter fun token => !token.kind.isSkipped

end MiniJava
