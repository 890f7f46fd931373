import MiniJava.Grammar.SyntaxError
import MiniJava.Syntax.Program

/-!
# Moving a program to other positions

A map of positions moves tokens, trees and errors: every position in them is replaced, and nothing
else. Trees that become the same when all positions are put at the start are equal up to positions.
-/

namespace MiniJava

variable (f : Position → Position)

def Token.moved (token : Token) : Token := { token with position := f token.position }

@[simp] theorem Token.kind_moved (token : Token) : (token.moved f).kind = token.kind := rfl

@[simp] theorem Token.lexeme_moved (token : Token) : (token.moved f).lexeme = token.lexeme := rfl

@[simp] theorem Token.position_moved (token : Token) :
    (token.moved f).position = f token.position := rfl

def movedTokens (tokens : List Token) : List Token := tokens.map (Token.moved f)

@[simp] theorem movedTokens_nil : movedTokens f [] = [] := rfl

@[simp] theorem movedTokens_cons (token : Token) (rest : List Token) :
    movedTokens f (token :: rest) = token.moved f :: movedTokens f rest := rfl

def SyntaxError.moved : SyntaxError → SyntaxError
  | .invalidCharacter char position => .invalidCharacter char (f position)
  | .unexpectedToken expected found position => .unexpectedToken expected found (f position)
  | .unexpectedEnd expected => .unexpectedEnd expected

theorem SyntaxError.atNext_moved (expected : Expected) (tokens : List Token) :
    atNext expected (movedTokens f tokens) = (atNext expected tokens).moved f := by
  cases tokens with
  | nil => rfl
  | cons token rest =>
      rw [movedTokens_cons, atNext, atNext, Token.kind_moved]
      split <;> rfl

def Expr.moved : Expr → Expr
  | .literal value position => .literal value (f position)
  | .name text position => .name text (f position)
  | .binary op lhs rhs => .binary op lhs.moved rhs.moved
  | .unary op operand => .unary op operand.moved
  | .assign target op value position => .assign target op value.moved (f position)
  | .step target op form position => .step target op form (f position)

@[simp] theorem Expr.position_moved (e : Expr) : (e.moved f).position = f e.position := by
  induction e with
  | binary op lhs rhs ihl _ => exact ihl
  | unary op operand ih => exact ih
  | _ => rfl

def VarDecl.moved (decl : VarDecl) : VarDecl :=
  { decl with init := decl.init.map (Expr.moved f), position := f decl.position }

def Param.moved (param : Param) : Param := { param with position := f param.position }

mutual

def Stmt.moved : Stmt → Stmt
  | .declare decl => .declare (decl.moved f)
  | .expression e => .expression (e.moved f)
  | .block body => .block (allMoved body)
  | .ifElse e thenBranch elseBranch =>
    .ifElse (e.moved f) thenBranch.moved (branchMoved elseBranch)
  | .whileLoop e body => .whileLoop (e.moved f) body.moved
  | .doWhile body e => .doWhile body.moved (e.moved f)
  | .forLoop init e update body =>
    .forLoop (branchMoved init) (e.map (Expr.moved f)) (update.map (Expr.moved f)) body.moved
  | .switch e cases default => .switch (e.moved f) (casesMoved cases) (partMoved default)
  | .tryCatch body catches cleanup =>
    .tryCatch (allMoved body) (catchesMoved catches) (partMoved cleanup)
  | .print kind args position => .print kind (args.map (Expr.moved f)) (f position)
  | .returns value position => .returns (value.map (Expr.moved f)) (f position)
  | .breaks => .breaks
  | .continues => .continues
  | .empty => .empty

def allMoved : List Stmt → List Stmt
  | [] => []
  | first :: rest => first.moved :: allMoved rest

def branchMoved : Option Stmt → Option Stmt
  | none => none
  | some s => some s.moved

def partMoved : Option (List Stmt) → Option (List Stmt)
  | none => none
  | some body => some (allMoved body)

def casesMoved : List (SwitchCase Stmt) → List (SwitchCase Stmt)
  | [] => []
  | ⟨value, body⟩ :: rest => ⟨value.moved f, allMoved body⟩ :: casesMoved rest

def catchesMoved : List (CatchClause Stmt) → List (CatchClause Stmt)
  | [] => []
  | ⟨exception, name, body, position⟩ :: rest =>
    ⟨exception, name, allMoved body, f position⟩ :: catchesMoved rest

end

def Method.moved (decl : Method) : Method :=
  { decl with
    params := decl.params.map (Param.moved f)
    body := allMoved f decl.body
    position := f decl.position }

mutual

def ClassDecl.moved : ClassDecl → ClassDecl
  | ⟨modifiers, name, members, position⟩ =>
    ⟨modifiers, name, membersMoved members, f position⟩

def membersMoved : List Member → List Member
  | [] => []
  | .field decl :: rest => .field (decl.moved f) :: membersMoved rest
  | .method decl :: rest => .method (decl.moved f) :: membersMoved rest
  | .nested decl :: rest => .nested (ClassDecl.moved decl) :: membersMoved rest

end

def Member.moved : Member → Member
  | .field decl => .field (decl.moved f)
  | .method decl => .method (decl.moved f)
  | .nested decl => .nested (ClassDecl.moved f decl)

theorem membersMoved_cons (first : Member) (rest : List Member) :
    membersMoved f (first :: rest) = first.moved f :: membersMoved f rest := by
  cases first <;> rw [membersMoved, Member.moved]

theorem Member.isEntryPoint_moved (m : Member) : (m.moved f).isEntryPoint = m.isEntryPoint := by
  cases m <;> rfl

theorem any_isEntryPoint_moved (members : List Member) :
    (membersMoved f members).any Member.isEntryPoint = members.any Member.isEntryPoint := by
  induction members with
  | nil => rw [membersMoved]
  | cons first rest ih =>
      rw [membersMoved_cons, List.any_cons, List.any_cons, Member.isEntryPoint_moved, ih]

def Item.moved : Item → Item
  | .declaration decl => .declaration (ClassDecl.moved f decl)
  | .statement s => .statement (s.moved f)

def Program.moved (program : Program) : Program := ⟨program.items.map (Item.moved f)⟩

theorem Program.classes_moved (program : Program) :
    (program.moved f).classes = program.classes.map (ClassDecl.moved f) := by
  rw [classes, classes, moved]
  induction program.items with
  | nil => rfl
  | cons first rest ih =>
      cases first with
      | declaration decl => exact congrArg (ClassDecl.moved f decl :: ·) ih
      | statement s => exact ih

def Program.unplaced (program : Program) : Program := program.moved fun _ => .start

def SyntaxError.unplaced (error : SyntaxError) : SyntaxError := error.moved fun _ => .start

end MiniJava
