import MiniJava.Grammar.Statement
import MiniJava.Proofs.Syntax.Leaves

/-!
# Positions in a program

Every node of a program that has a position has it from a token: a name from its identifier, a
literal from the literal, a class and a `return` from their keywords and a print call from its first
token. The anchors of a program say so, in the order of its fields.
-/

namespace MiniJava

inductive Anchor where
  | leaf (leaf : Leaf) (position : Position)
  | keyword (word : String) (position : Position)
  | call (kind : PrintKind) (position : Position)

namespace Anchor

def position : Anchor → Position
  | leaf _ position | keyword _ position | call _ position => position

/-- The anchor of a name. -/
abbrev name (name : String) (position : Position) : Anchor := leaf (.identifier, name) position

/-- The token stands at the position and is what the program has there. -/
def Holds (anchor : Anchor) (token : Token) : Prop :=
  token.position = anchor.position ∧
    match anchor with
    | leaf found _ => token.leaf? = some found
    | keyword word _ => token.lexeme = word
    | call kind _ => token.kind = .printCall ∧ Grammar.printKind token.lexeme = kind

end Anchor

def Expr.anchors : Expr → List Anchor
  | .literal value position => [.leaf value.leaf position]
  | .name word position => [.name word position]
  | .binary _ lhs rhs => lhs.anchors ++ rhs.anchors
  | .unary _ operand => operand.anchors
  | .assign target _ value position => .name target position :: value.anchors
  | .step target _ _ position => [.name target position]

def optionAnchors : Option Expr → List Anchor
  | none => []
  | some e => e.anchors

def VarDecl.anchors (decl : VarDecl) : List Anchor :=
  .name decl.name decl.position :: optionAnchors decl.init

def Param.anchor (param : Param) : Anchor := .name param.name param.position

mutual

def Stmt.anchors : Stmt → List Anchor
  | .declare decl => decl.anchors
  | .expression e => e.anchors
  | .block body => allAnchors body
  | .ifElse e thenBranch elseBranch =>
    e.anchors ++ (thenBranch.anchors ++ branchAnchors elseBranch)
  | .whileLoop e body => e.anchors ++ body.anchors
  | .doWhile body e => body.anchors ++ e.anchors
  | .forLoop init e update body =>
    branchAnchors init ++ (optionAnchors e ++ update.flatMap Expr.anchors) ++ body.anchors
  | .switch e cases default => e.anchors ++ (casesAnchors cases ++ partAnchors default)
  | .tryCatch body catches cleanup =>
    allAnchors body ++ (catchesAnchors catches ++ partAnchors cleanup)
  | .print kind args position => .call kind position :: args.flatMap Expr.anchors
  | .returns value position => .keyword "return" position :: optionAnchors value
  | .breaks | .continues | .empty => []

def allAnchors : List Stmt → List Anchor
  | [] => []
  | first :: rest => first.anchors ++ allAnchors rest

def branchAnchors : Option Stmt → List Anchor
  | none => []
  | some s => s.anchors

def partAnchors : Option (List Stmt) → List Anchor
  | none => []
  | some body => allAnchors body

def casesAnchors : List (SwitchCase Stmt) → List Anchor
  | [] => []
  | ⟨value, body⟩ :: rest => value.anchors ++ (allAnchors body ++ casesAnchors rest)

def catchesAnchors : List (CatchClause Stmt) → List Anchor
  | [] => []
  | ⟨_, name, body, position⟩ :: rest =>
    .name name position :: (allAnchors body ++ catchesAnchors rest)

end

def Method.anchors (decl : Method) : List Anchor :=
  .name decl.name decl.position :: (decl.params.map Param.anchor ++ allAnchors decl.body)

mutual

def ClassDecl.anchors : ClassDecl → List Anchor
  | ⟨_, _, members, position⟩ => .keyword "class" position :: membersAnchors members

def membersAnchors : List Member → List Anchor
  | [] => []
  | .field decl :: rest => decl.anchors ++ membersAnchors rest
  | .method decl :: rest => decl.anchors ++ membersAnchors rest
  | .nested decl :: rest => ClassDecl.anchors decl ++ membersAnchors rest

end

def Item.anchors : Item → List Anchor
  | .declaration decl => ClassDecl.anchors decl
  | .statement s => s.anchors

def Program.anchors (program : Program) : List Anchor := program.items.flatMap Item.anchors

end MiniJava
