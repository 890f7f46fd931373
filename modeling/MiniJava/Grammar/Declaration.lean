import MiniJava.Grammar.Expression
import MiniJava.Syntax.Stmt

/-!
# Declarations in a token table

Modifiers, written types and variable declarations. Whether a declaration follows is decided by
looking ahead for a type with a name behind it.
-/

namespace MiniJava.Grammar

def modifiers : (tokens : List Token) → Parsed (List Modifier) (tokens.length + 1)
  | [] => .here [] []
  | token :: rest =>
    match Modifier.ofWord? token.lexeme with
    | none => .here [] (token :: rest)
    | some modifier =>
      let ⟨more, rest, lt⟩ := (modifiers rest).later
      ⟨modifier :: more, rest, lt⟩

/-- The number of bracket pairs at the front of the table. -/
def dimensions : (tokens : List Token) → Reading Nat (tokens.length + 1)
  | [] => return .here 0 []
  | [token] => if token.lexeme = "[" then fail (.lexeme "]") [] else return .here 0 [token]
  | left :: right :: rest =>
    if left.lexeme = "[" then
      if right.lexeme = "]" then do
        let ⟨more, rest, lt⟩ ← (dimensions rest).later.later
        return ⟨more + 1, rest, lt⟩
      else fail (.lexeme "]") (right :: rest)
    else return .here 0 (left :: right :: rest)

def namesType (token : Token) : Bool :=
  token.kind = .dataType || token.kind = .identifier || token.lexeme = "void"

def typeName : (tokens : List Token) → Reading TypeName tokens.length
  | [] => fail .type []
  | token :: rest =>
    if namesType token then do
      let ⟨dims, rest, lt⟩ ← dimensions rest
      return ⟨⟨token.lexeme, dims⟩, rest, lt⟩
    else fail .type (token :: rest)

/-- Bracket pairs, any number of them, and then an identifier. -/
def nameFollows : List Token → Bool
  | first :: second :: rest =>
    if first.lexeme = "[" && second.lexeme = "]" then nameFollows rest
    else first.kind = .identifier
  | [token] => token.kind = .identifier
  | [] => false

/-- A data type, or any other type with a name behind it, begins a declaration. -/
def beginsDeclaration : List Token → Bool
  | [] => false
  | token :: rest => token.kind = .dataType || (token.kind = .identifier && nameFollows rest)

/-- What may follow the name of a variable: its initial value. -/
def initializer : (tokens : List Token) → Reading (Option Expr) (tokens.length + 1)
  | [] => return .here none []
  | token :: rest =>
    if token.lexeme = "=" then do
      let ⟨value, rest, lt⟩ ← (expression rest).later.later
      return ⟨some value, rest, lt⟩
    else return .here none (token :: rest)

/-- A variable whose type and name have been read. -/
def declarator (modifiers : List Modifier) (type : TypeName) (name : Token)
    (tokens : List Token) : Reading VarDecl (tokens.length + 1) := do
  let ⟨init, rest, lt⟩ ← initializer tokens
  return ⟨⟨modifiers, type, name.lexeme, init, name.position⟩, rest, lt⟩

def localVariable (modifiers : List Modifier) (tokens : List Token) :
    Reading VarDecl tokens.length := do
  let ⟨type, rest, lt⟩ ← typeName tokens
  let ⟨name, rest, lt⟩ ← (identifier rest).behind lt
  (declarator modifiers type name rest).optional lt

end MiniJava.Grammar
