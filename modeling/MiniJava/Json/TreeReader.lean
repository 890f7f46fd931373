import MiniJava.Json.Tree

/-!
# Reading syntax trees from JSON

A node is read from the members of its object, whatever their order. A value that is not the form
of any node is refused.
-/

namespace MiniJava

namespace Json

/-- A member's value read by `read`. -/
def read? {α : Type} (json : Json) (key : String) (read : Json → Option α) : Option α :=
  (json.member? key).bind fun value => read value.1

/-- A value that may be absent. -/
def optional? {α : Type} (read : Json → Option α) : Json → Option (Option α)
  | null => some none
  | json => (read json).map some

def list? {α : Type} (read : Json → Option α) (json : Json) : Option (List α) :=
  json.elements?.bind fun elements => elements.mapM fun element => read element.1

end Json

def Modifier.ofJson? (json : Json) : Option Modifier := json.string?.bind Modifier.ofWord?

def TypeName.ofJson? (json : Json) : Option TypeName :=
  return ⟨← json.read? "name" Json.string?, ← json.read? "array_dims" Json.count?⟩

def Literal.ofJson? (json : Json) : Option Literal := do
  match ← json.read? "literal" Json.string? with
  | "number" => return .number (← json.read? "value" Json.string?)
  | "string" => return .string (← json.read? "value" Json.string?)
  | "char" => return .char (← json.read? "value" Json.string?)
  | "bool" => return .bool (← json.read? "value" Json.bool?)
  | "null" => return .null
  | _ => none

def Expr.ofJson? (json : Json) : Option Expr := do
  match ← json.read? "expr" Json.string? with
  | "literal" =>
    return .literal (← json.read? "value" Literal.ofJson?)
      (← json.read? "position" Position.ofJson?)
  | "ident" =>
    return .name (← json.read? "name" Json.string?) (← json.read? "position" Position.ofJson?)
  | "binary" => do
    let op ← (← json.read? "op" Json.string?) |> BinaryOp.ofLabel?
    let ⟨lhs, _⟩ ← json.member? "lhs"
    let ⟨rhs, _⟩ ← json.member? "rhs"
    return .binary op (← Expr.ofJson? lhs) (← Expr.ofJson? rhs)
  | "unary" => do
    let op ← (← json.read? "op" Json.string?) |> UnaryOp.ofLabel?
    let ⟨operand, _⟩ ← json.member? "operand"
    return .unary op (← Expr.ofJson? operand)
  | "assign" => do
    let target ← json.read? "target" Json.string?
    let op ← json.read? "op" (Json.optional? fun op => op.string?.bind BinaryOp.ofLabel?)
    let ⟨value, _⟩ ← json.member? "value"
    return .assign target op (← Expr.ofJson? value) (← json.read? "position" Position.ofJson?)
  | "step" => do
    let target ← json.read? "target" Json.string?
    let op ← (← json.read? "op" Json.string?) |> StepOp.ofLabel?
    let isBefore ← json.read? "prefix" Json.bool?
    return .step target op (if isBefore then .before else .behind)
      (← json.read? "position" Position.ofJson?)
  | _ => none
termination_by sizeOf json

def VarDecl.ofJson? (json : Json) : Option VarDecl :=
  return ⟨← json.read? "modifiers" (Json.list? Modifier.ofJson?),
    ← json.read? "ty" TypeName.ofJson?, ← json.read? "name" Json.string?,
    ← json.read? "init" (Json.optional? Expr.ofJson?), ← json.read? "position" Position.ofJson?⟩

def PrintKind.ofJson? (json : Json) : Option PrintKind := json.string?.bind PrintKind.ofLabel?

mutual

def Stmt.ofJson? (json : Json) : Option Stmt := do
  match ← json.read? "stmt" Json.string? with
  | "var_decl" => return .declare (← VarDecl.ofJson? json)
  | "expr" => return .expression (← Expr.ofJson? json)
  | "block" => do
    let ⟨body, _⟩ ← json.member? "statements"
    return .block (← stmtsOfJson? body)
  | "if" => do
    let ⟨thenBranch, _⟩ ← json.member? "then_branch"
    let ⟨elseBranch, _⟩ ← json.member? "else_branch"
    return .ifElse (← json.read? "condition" Expr.ofJson?) (← Stmt.ofJson? thenBranch)
      (← optionalStmtOfJson? elseBranch)
  | "while" => do
    let ⟨body, _⟩ ← json.member? "body"
    return .whileLoop (← json.read? "condition" Expr.ofJson?) (← Stmt.ofJson? body)
  | "do_while" => do
    let ⟨body, _⟩ ← json.member? "body"
    return .doWhile (← Stmt.ofJson? body) (← json.read? "condition" Expr.ofJson?)
  | "for" => do
    let ⟨init, _⟩ ← json.member? "init"
    let ⟨body, _⟩ ← json.member? "body"
    return .forLoop (← optionalStmtOfJson? init)
      (← json.read? "condition" (Json.optional? Expr.ofJson?))
      (← json.read? "update" (Json.list? Expr.ofJson?)) (← Stmt.ofJson? body)
  | "switch" => do
    let ⟨cases, _⟩ ← json.member? "cases"
    let ⟨default, _⟩ ← json.member? "default"
    return .switch (← json.read? "scrutinee" Expr.ofJson?) (← casesOfJson? cases)
      (← defaultOfJson? default)
  | "try" => do
    let ⟨body, _⟩ ← json.member? "body"
    let ⟨catches, _⟩ ← json.member? "catches"
    let ⟨cleanup, _⟩ ← json.member? "finally"
    return .tryCatch (← blockOfJson? body) (← catchesOfJson? catches)
      (← optionalBlockOfJson? cleanup)
  | "print" =>
    return .print (← json.read? "kind" PrintKind.ofJson?)
      (← json.read? "args" (Json.list? Expr.ofJson?)) (← json.read? "position" Position.ofJson?)
  | "return" =>
    return .returns (← json.read? "value" (Json.optional? Expr.ofJson?))
      (← json.read? "position" Position.ofJson?)
  | "break" => return .breaks
  | "continue" => return .continues
  | "empty" => return .empty
  | _ => none
termination_by 3 * sizeOf json

def optionalStmtOfJson? (json : Json) : Option (Option Stmt) :=
  match json with
  | .null => some none
  | json => (Stmt.ofJson? json).map some
termination_by 3 * sizeOf json + 1

def stmtsOfJson? (json : Json) : Option (List Stmt) := do
  (← json.elements?).mapM fun ⟨element, _⟩ => Stmt.ofJson? element
termination_by 3 * sizeOf json

def blockOfJson? (json : Json) : Option (List Stmt) := do
  let ⟨body, _⟩ ← json.member? "statements"
  stmtsOfJson? body
termination_by 3 * sizeOf json

def optionalBlockOfJson? (json : Json) : Option (Option (List Stmt)) :=
  match json with
  | .null => some none
  | json => (blockOfJson? json).map some
termination_by 3 * sizeOf json + 1

def defaultOfJson? (json : Json) : Option (Option (List Stmt)) :=
  match json with
  | .null => some none
  | json => (stmtsOfJson? json).map some
termination_by 3 * sizeOf json + 1

def casesOfJson? (json : Json) : Option (List (SwitchCase Stmt)) := do
  (← json.elements?).mapM fun ⟨element, _⟩ => do
    let ⟨body, _⟩ ← element.member? "body"
    return ⟨← element.read? "value" Expr.ofJson?, ← stmtsOfJson? body⟩
termination_by 3 * sizeOf json

def catchesOfJson? (json : Json) : Option (List (CatchClause Stmt)) := do
  (← json.elements?).mapM fun ⟨element, _⟩ => do
    let ⟨body, _⟩ ← element.member? "body"
    return ⟨← element.read? "exception" TypeName.ofJson?, ← element.read? "name" Json.string?,
      ← blockOfJson? body, ← element.read? "position" Position.ofJson?⟩
termination_by 3 * sizeOf json

end

def Param.ofJson? (json : Json) : Option Param :=
  return ⟨← json.read? "ty" TypeName.ofJson?, ← json.read? "name" Json.string?,
    ← json.read? "position" Position.ofJson?⟩

def Method.ofJson? (json : Json) : Option Method :=
  return ⟨← json.read? "modifiers" (Json.list? Modifier.ofJson?),
    ← json.read? "return_type" (Json.optional? TypeName.ofJson?),
    ← json.read? "name" Json.string?, ← json.read? "params" (Json.list? Param.ofJson?),
    ← json.read? "body" blockOfJson?, ← json.read? "position" Position.ofJson?⟩

mutual

def classOfJson? (json : Json) : Option ClassDecl := do
  let ⟨members, _⟩ ← json.member? "members"
  return ⟨← json.read? "modifiers" (Json.list? Modifier.ofJson?),
    ← json.read? "name" Json.string?, ← membersOfJson? members,
    ← json.read? "position" Position.ofJson?⟩
termination_by 2 * sizeOf json

def Member.ofJson? (json : Json) : Option Member := do
  match ← json.read? "member" Json.string? with
  | "field" => return .field (← VarDecl.ofJson? json)
  | "method" => return .method (← Method.ofJson? json)
  | "class" => return .nested (← classOfJson? json)
  | _ => none
termination_by 2 * sizeOf json + 1

def membersOfJson? (json : Json) : Option (List Member) := do
  (← json.elements?).mapM fun ⟨element, _⟩ => Member.ofJson? element
termination_by 2 * sizeOf json

end

def Item.ofJson? (json : Json) : Option Item := do
  match ← json.read? "item" Json.string? with
  | "class" => return .declaration (← classOfJson? json)
  | "statement" => return .statement (← Stmt.ofJson? json)
  | _ => none

def Program.ofJson? (json : Json) : Option Program :=
  return ⟨← json.read? "items" (Json.list? Item.ofJson?)⟩

end MiniJava
