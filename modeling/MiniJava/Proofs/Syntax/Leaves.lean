import MiniJava.Syntax.Program
import MiniJava.Token.Table

/-!
# Identifiers and literals

The identifiers and literals of a token table, and those of a program in the order of its fields. A
type is an identifier unless it is named by a keyword.
-/

namespace MiniJava

open Lexeme

abbrev Leaf := TokenKind × String

def TokenKind.isLeaf : TokenKind → Bool
  | identifier | number | stringLiteral | charLiteral | booleanLiteral | nullLiteral => true
  | _ => false

def Token.leaf? (token : Token) : Option Leaf :=
  if token.kind.isLeaf then some (token.kind, token.lexeme) else none

def leavesOf (tokens : List Token) : List Leaf := tokens.filterMap Token.leaf?

def Literal.leaf : Literal → Leaf
  | .number text => (.number, text)
  | .string text => (.stringLiteral, "\"" ++ text ++ "\"")
  | .char text => (.charLiteral, "'" ++ text ++ "'")
  | .bool value => (.booleanLiteral, cond value "true" "false")
  | .null => (.nullLiteral, "null")

def Expr.leaves : Expr → List Leaf
  | .literal value _ => [value.leaf]
  | .name text _ => [(.identifier, text)]
  | .binary _ lhs rhs => lhs.leaves ++ rhs.leaves
  | .unary _ operand => operand.leaves
  | .assign target _ value _ => (.identifier, target) :: value.leaves
  | .step target _ _ _ => [(.identifier, target)]

def optionLeaves : Option Expr → List Leaf
  | none => []
  | some e => e.leaves

def TypeName.leaves (type : TypeName) : List Leaf :=
  if keywords.lookup type.name = none then [(.identifier, type.name)] else []

def VarDecl.leaves (decl : VarDecl) : List Leaf :=
  decl.type.leaves ++ (.identifier, decl.name) :: optionLeaves decl.init

def Param.leaves (param : Param) : List Leaf :=
  param.type.leaves ++ [(.identifier, param.name)]

mutual

def Stmt.leaves : Stmt → List Leaf
  | .declare decl => decl.leaves
  | .expression e => e.leaves
  | .block body => allLeaves body
  | .ifElse e thenBranch elseBranch =>
    e.leaves ++ (thenBranch.leaves ++ branchLeaves elseBranch)
  | .whileLoop e body => e.leaves ++ body.leaves
  | .doWhile body e => body.leaves ++ e.leaves
  | .forLoop init e update body =>
    branchLeaves init ++ (optionLeaves e ++ update.flatMap Expr.leaves) ++ body.leaves
  | .switch e cases default => e.leaves ++ (casesLeaves cases ++ partLeaves default)
  | .tryCatch body catches cleanup =>
    allLeaves body ++ (catchesLeaves catches ++ partLeaves cleanup)
  | .print _ args _ => args.flatMap Expr.leaves
  | .returns value _ => optionLeaves value
  | .breaks | .continues | .empty => []

def allLeaves : List Stmt → List Leaf
  | [] => []
  | first :: rest => first.leaves ++ allLeaves rest

def branchLeaves : Option Stmt → List Leaf
  | none => []
  | some s => s.leaves

def partLeaves : Option (List Stmt) → List Leaf
  | none => []
  | some body => allLeaves body

def casesLeaves : List (SwitchCase Stmt) → List Leaf
  | [] => []
  | ⟨value, body⟩ :: rest => value.leaves ++ (allLeaves body ++ casesLeaves rest)

def catchesLeaves : List (CatchClause Stmt) → List Leaf
  | [] => []
  | ⟨exception, name, body, _⟩ :: rest =>
    exception.leaves ++ (.identifier, name) :: (allLeaves body ++ catchesLeaves rest)

end

def Method.leaves (decl : Method) : List Leaf :=
  (.identifier, decl.name) :: (decl.params.flatMap Param.leaves ++ allLeaves decl.body)

def returnLeaves : Option TypeName → List Leaf
  | none => []
  | some type => type.leaves

mutual

def ClassDecl.leaves : ClassDecl → List Leaf
  | ⟨_, name, members, _⟩ => (.identifier, name) :: membersLeaves members

def membersLeaves : List Member → List Leaf
  | [] => []
  | .field decl :: rest => decl.leaves ++ membersLeaves rest
  | .method decl :: rest => returnLeaves decl.returnType ++ (decl.leaves ++ membersLeaves rest)
  | .nested decl :: rest => ClassDecl.leaves decl ++ membersLeaves rest

end

def Item.leaves : Item → List Leaf
  | .declaration decl => ClassDecl.leaves decl
  | .statement s => s.leaves

/-- The identifiers and literals of a program in the order of its fields. -/
def Program.leaves (program : Program) : List Leaf := program.items.flatMap Item.leaves

end MiniJava
