import MiniJava.Proofs.Syntax.Leaves

/-!
# Programs as token tables

The tokens that a program is printed with: one token for each keyword, mark and operator, modifiers
first, the cases of a switch before its default, and no braces but those of blocks, classes and
switches. An operand is in parentheses only if it binds weaker than its place asks for, and an
assignment is the weakest. A token stands where the tree says that it stood; one that left no
position in the tree stands at the start.
-/

namespace MiniJava

open Lexeme

namespace Token

def ofWord (text : String) (position : Position) : Token :=
  ⟨((keywords ++ symbols).lookup text).getD .identifier, text, position⟩

def fixed (text : String) : Token := ofWord text .start

end Token

def inParentheses (tokens : List Token) : List Token := .fixed "(" :: (tokens ++ [.fixed ")"])

def inBraces (tokens : List Token) : List Token := .fixed "\x7b" :: (tokens ++ [.fixed "\x7d"])

def withCommas : List (List Token) → List Token
  | [] => []
  | [tokens] => tokens
  | tokens :: rest => tokens ++ .fixed "," :: withCommas rest

def Literal.token (value : Literal) (position : Position) : Token :=
  ⟨value.leaf.1, value.leaf.2, position⟩

/-- How tight an expression binds: assignments not at all, literals and names tightest. -/
def Expr.strength : Expr → Nat
  | .assign _ _ _ _ => 0
  | .binary op _ _ => op.precedence
  | .unary _ _ | .step _ _ _ _ => 11
  | .literal _ _ | .name _ _ => 12

def operandTokens (limit strength : Nat) (tokens : List Token) : List Token :=
  if strength < limit then inParentheses tokens else tokens

def assignText : Option BinaryOp → String
  | none => "="
  | some op => op.symbol ++ "="

def Expr.tokens : Expr → List Token
  | .literal value position => [value.token position]
  | .name text position => [.ofWord text position]
  | .binary op lhs rhs =>
    operandTokens op.precedence lhs.strength lhs.tokens ++
      .fixed op.symbol :: operandTokens (op.precedence + 1) rhs.strength rhs.tokens
  | .unary op operand => .fixed op.symbol :: operandTokens 11 operand.strength operand.tokens
  | .assign target op value position =>
    .ofWord target position :: .fixed (assignText op) :: value.tokens
  | .step target op .before position => [.fixed op.symbol, .ofWord target position]
  | .step target op .behind position => [.ofWord target position, .fixed op.symbol]

def optionTokens : Option Expr → List Token
  | none => []
  | some e => e.tokens

def modifierTokens (modifiers : List Modifier) : List Token :=
  modifiers.map fun modifier => .fixed modifier.word

def dimensionTokens : Nat → List Token
  | 0 => []
  | n + 1 => .fixed "[" :: .fixed "]" :: dimensionTokens n

def TypeName.tokens (type : TypeName) : List Token :=
  .fixed type.name :: dimensionTokens type.dimensions

def initialTokens : Option Expr → List Token
  | none => []
  | some e => .fixed "=" :: e.tokens

def VarDecl.tokens (decl : VarDecl) : List Token :=
  modifierTokens decl.modifiers ++
    (decl.type.tokens ++ .ofWord decl.name decl.position :: initialTokens decl.init)

def Param.tokens (param : Param) : List Token :=
  param.type.tokens ++ [.ofWord param.name param.position]

def PrintKind.method : PrintKind → String
  | .print => "print"
  | .println => "println"
  | .printf => "printf"

def Stmt.simpleTokens : Stmt → List Token
  | .declare decl => decl.tokens
  | .expression e => e.tokens
  | _ => []

def startTokens : Option Stmt → List Token
  | none => []
  | some s => s.simpleTokens

def headerTokens (init : Option Stmt) (condition : Option Expr) (update : List Expr) :
    List Token :=
  .fixed "(" :: (startTokens init ++ .fixed ";" :: (optionTokens condition ++
    .fixed ";" :: (withCommas (update.map Expr.tokens) ++ [.fixed ")"])))

mutual

def Stmt.tokens : Stmt → List Token
  | .declare decl => decl.tokens ++ [.fixed ";"]
  | .expression e => e.tokens ++ [.fixed ";"]
  | .block body => inBraces (allTokens body)
  | .ifElse e thenBranch elseBranch =>
    .fixed "if" :: (inParentheses e.tokens ++ (thenBranch.tokens ++ elseTokens elseBranch))
  | .whileLoop e body => .fixed "while" :: (inParentheses e.tokens ++ body.tokens)
  | .doWhile body e =>
    .fixed "do" :: (body.tokens ++ .fixed "while" :: (inParentheses e.tokens ++ [.fixed ";"]))
  | .forLoop init e update body => .fixed "for" :: (headerTokens init e update ++ body.tokens)
  | .switch e cases default =>
    .fixed "switch" :: (inParentheses e.tokens ++
      .fixed "\x7b" :: (casesTokens cases ++ (defaultTokens default ++ [.fixed "\x7d"])))
  | .tryCatch body catches cleanup =>
    .fixed "try" :: (inBraces (allTokens body) ++ (catchesTokens catches ++ finallyTokens cleanup))
  | .print kind args position =>
    ⟨.printCall, "System.out." ++ kind.method, position⟩ :: .fixed "(" ::
      (withCommas (args.map Expr.tokens) ++ .fixed ")" :: [.fixed ";"])
  | .returns value position => .ofWord "return" position :: (optionTokens value ++ [.fixed ";"])
  | .breaks => [.fixed "break", .fixed ";"]
  | .continues => [.fixed "continue", .fixed ";"]
  | .empty => [.fixed ";"]

def allTokens : List Stmt → List Token
  | [] => []
  | first :: rest => first.tokens ++ allTokens rest

def elseTokens : Option Stmt → List Token
  | none => []
  | some s => .fixed "else" :: s.tokens

def finallyTokens : Option (List Stmt) → List Token
  | none => []
  | some body => .fixed "finally" :: inBraces (allTokens body)

def defaultTokens : Option (List Stmt) → List Token
  | none => []
  | some body => .fixed "default" :: .fixed ":" :: allTokens body

def casesTokens : List (SwitchCase Stmt) → List Token
  | [] => []
  | ⟨value, body⟩ :: rest =>
    .fixed "case" :: (value.tokens ++ .fixed ":" :: (allTokens body ++ casesTokens rest))

def catchesTokens : List (CatchClause Stmt) → List Token
  | [] => []
  | ⟨exception, name, body, position⟩ :: rest =>
    .fixed "catch" :: .fixed "(" :: (exception.tokens ++ .ofWord name position :: .fixed ")" ::
      (inBraces (allTokens body) ++ catchesTokens rest))

end

/-- A method behind its modifiers and its type. -/
def Method.tokens (decl : Method) : List Token :=
  .ofWord decl.name decl.position :: .fixed "(" ::
    (withCommas (decl.params.map Param.tokens) ++ .fixed ")" :: inBraces (allTokens decl.body))

def returnTokens : Option TypeName → List Token
  | none => []
  | some type => type.tokens

mutual

/-- A class behind its modifiers. -/
def ClassDecl.tokens : ClassDecl → List Token
  | ⟨_, name, members, position⟩ =>
    .ofWord "class" position :: .fixed name :: .fixed "\x7b" :: membersTokens members

def membersTokens : List Member → List Token
  | [] => [.fixed "\x7d"]
  | .field decl :: rest => decl.tokens ++ .fixed ";" :: membersTokens rest
  | .method decl :: rest =>
    modifierTokens decl.modifiers ++
      (returnTokens decl.returnType ++ (decl.tokens ++ membersTokens rest))
  | .nested decl :: rest =>
    modifierTokens decl.modifiers ++ (ClassDecl.tokens decl ++ membersTokens rest)

end

def Item.tokens : Item → List Token
  | .declaration decl => modifierTokens decl.modifiers ++ ClassDecl.tokens decl
  | .statement s => s.tokens

/-- The tokens that a program is printed with. -/
def Program.tokens (program : Program) : List Token := program.items.flatMap Item.tokens

end MiniJava
