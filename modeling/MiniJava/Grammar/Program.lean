import MiniJava.Grammar.Statement
import MiniJava.Syntax.Program
import MiniJava.Token.Table

/-!
# Programs in a token table

Classes with their members, and the top level of a program, where modifiers in front of anything
but a class belong to a local declaration.
-/

namespace MiniJava.Grammar

def param (tokens : List Token) : Reading Param tokens.length := do
  let ⟨type, rest, lt⟩ ← typeName tokens
  let ⟨name, rest, lt⟩ ← (identifier rest).behind lt
  return ⟨⟨type, name.lexeme, name.position⟩, rest, lt⟩

/-- One or more parameters with commas between them. -/
def params (tokens : List Token) : Reading (List Param) tokens.length := do
  let ⟨first, rest, lt⟩ ← param tokens
  match skip? "," rest lt with
  | none => return ⟨[first], rest, lt⟩
  | some ⟨_, rest, lt⟩ => do
    let ⟨more, rest, lt⟩ ← (params rest).behind lt
    return ⟨first :: more, rest, lt⟩
termination_by tokens.length
decreasing_by all_goals omega

/-- Parameters with commas between them, or none if `stop` comes next. -/
def paramsUnless (stop : String) (tokens : List Token) :
    Reading (List Param) (tokens.length + 1) :=
  if nextIs stop tokens then return .here [] tokens else (params tokens).later

/-- The parameters and the body of a method whose name has been read. -/
def method (mods : List Modifier) (returnType : Option TypeName) (name : Token)
    (tokens : List Token) : Reading Method tokens.length := do
  let ⟨_, rest, lt⟩ ← expect "(" tokens
  let ⟨params, rest, lt⟩ ← (paramsUnless ")" rest).optional lt
  let ⟨_, rest, lt⟩ ← (expect ")" rest).behind lt
  let ⟨body, rest, lt⟩ ← (block rest).behind lt
  return ⟨⟨mods, returnType, name.lexeme, params, body, name.position⟩, rest, lt⟩

/-- The class name with an opening parenthesis behind it begins a constructor. -/
def beginsConstructor (className : String) : List Token → Bool
  | name :: next :: _ => name.lexeme = className && next.lexeme = "("
  | _ => false

def constructor (mods : List Modifier) (tokens : List Token) : Reading Member tokens.length := do
  let ⟨name, rest, lt⟩ ← identifier tokens
  let ⟨decl, rest, lt⟩ ← (method mods none name rest).behind lt
  return ⟨.method decl, rest, lt⟩

def typedMember (mods : List Modifier) (tokens : List Token) : Reading Member tokens.length := do
  let ⟨type, rest, lt⟩ ← typeName tokens
  let ⟨name, rest, lt⟩ ← (identifier rest).behind lt
  if nextIs "(" rest then do
    let ⟨decl, rest, lt⟩ ← (method mods (some type) name rest).behind lt
    return ⟨.method decl, rest, lt⟩
  else do
    let ⟨decl, rest, lt⟩ ← (declarator mods type name rest).optional lt
    let ⟨_, rest, lt⟩ ← (expect ";" rest).behind lt
    return ⟨.field decl, rest, lt⟩

/-- A member that is not a class, behind its modifiers. -/
def methodOrField (className : String) (mods : List Modifier) (tokens : List Token) :
    Reading Member tokens.length :=
  if beginsConstructor className tokens then constructor mods tokens else typedMember mods tokens

mutual

/-- A class behind its modifiers. -/
def classDecl (mods : List Modifier) (tokens : List Token) :
    Reading ClassDecl tokens.length := do
  let ⟨keyword, rest, lt⟩ ← expect "class" tokens
  let ⟨name, rest, lt⟩ ← (identifier rest).behind lt
  let ⟨_, rest, lt⟩ ← (expect "\x7b" rest).behind lt
  let ⟨list, rest, lt⟩ ← (members name.lexeme rest).behind lt
  return ⟨⟨mods, name.lexeme, list, keyword.position⟩, rest, lt⟩
termination_by 3 * tokens.length
decreasing_by all_goals omega

def member (className : String) (tokens : List Token) : Reading Member tokens.length :=
  let ⟨mods, rest, lt⟩ := modifiers tokens
  if nextIs "class" rest then do
    let ⟨decl, rest, lt⟩ ← (classDecl mods rest).first lt
    return ⟨.nested decl, rest, lt⟩
  else (methodOrField className mods rest).first lt
termination_by 3 * tokens.length + 1
decreasing_by all_goals omega

/-- Members up to the brace that closes their class, and the brace. Semicolons between members
stand for nothing. -/
def members (className : String) : (tokens : List Token) → Reading (List Member) tokens.length
  | [] => fail .classEnd []
  | token :: rest =>
    if token.lexeme = "\x7d" then return .here [] rest
    else if token.lexeme = ";" then (members className rest).later
    else do
      let ⟨first, rest, lt⟩ ← member className (token :: rest)
      let ⟨more, rest, lt⟩ ← (members className rest).behind lt
      return ⟨first :: more, rest, lt⟩
termination_by tokens => 3 * tokens.length + 2
decreasing_by
  all_goals
    simp only [List.length_cons] at *
    omega

end

/-- A class or a statement. Modifiers before a statement are read again as part of it. -/
def item (tokens : List Token) : Reading Item tokens.length :=
  let ⟨mods, rest, lt⟩ := modifiers tokens
  if nextIs "class" rest then do
    let ⟨decl, rest, lt⟩ ← (classDecl mods rest).first lt
    return ⟨.declaration decl, rest, lt⟩
  else do
    let ⟨stmt, rest, lt⟩ ← statement tokens
    return ⟨.statement stmt, rest, lt⟩

/-- Items up to the end of the table. -/
def items : List Token → Except SyntaxError (List Item)
  | [] => return []
  | token :: rest => do
    let ⟨first, rest, _⟩ ← item (token :: rest)
    let more ← items rest
    return first :: more
termination_by tokens => tokens.length
decreasing_by all_goals assumption

end MiniJava.Grammar

namespace MiniJava.Program

/-- The program that a token table spells. -/
def ofTokens (tokens : List Token) : Except SyntaxError Program :=
  (Grammar.items tokens).map fun items => ⟨items⟩

/-- The program that a source text spells. -/
def ofSource (source : String) : Except SyntaxError Program := ofTokens (tokenize source)

end MiniJava.Program
