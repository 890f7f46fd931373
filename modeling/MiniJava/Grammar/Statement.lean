import MiniJava.Grammar.Declaration

/-!
# Statements in a token table

The first lexeme of a statement tells which one it is. A statement that begins with no word of its
own is a print call, a declaration or an expression. An `else` belongs to the nearest `if` that is
still open.
-/

namespace MiniJava.Grammar

def printKind (lexeme : String) : PrintKind :=
  let method := (lexeme.toList.reverse.takeWhile (· != '.')).reverse
  if method = "println".toList then .println
  else if method = "printf".toList then .printf
  else .print

/-- The arguments of a print call and the semicolon behind it. -/
def printCall (call : Token) (tokens : List Token) : Reading Stmt tokens.length := do
  let ⟨_, rest, lt⟩ ← expect "(" tokens
  let ⟨args, rest, lt⟩ ← (expressionsUnless ")" rest).optional lt
  let ⟨_, rest, lt⟩ ← (expect ")" rest).behind lt
  let ⟨_, rest, lt⟩ ← (expect ";" rest).behind lt
  return ⟨.print (printKind call.lexeme) args call.position, rest, lt⟩

/-- A variable with its modifiers. -/
def declaration (tokens : List Token) : Reading Stmt tokens.length := do
  let ⟨mods, rest, lt⟩ := modifiers tokens
  let ⟨decl, rest, lt⟩ ← (localVariable mods rest).first lt
  return ⟨.declare decl, rest, lt⟩

def expressionStatement (tokens : List Token) : Reading Stmt tokens.length := do
  let ⟨expr, rest, lt⟩ ← expression tokens
  return ⟨.expression expr, rest, lt⟩

/-- A declaration or an expression, without the semicolon. -/
def declarationOrExpression (tokens : List Token) : Reading Stmt tokens.length :=
  if !(modifiers tokens).value.isEmpty || beginsDeclaration tokens then declaration tokens
  else expressionStatement tokens

/-- The first part of a `for` header. It takes modifiers only if `final` comes first. -/
def forInit (tokens : List Token) : Reading (Option Stmt) (tokens.length + 1) :=
  if nextIs ";" tokens then return .here none tokens
  else do
    let ⟨stmt, rest, lt⟩ ←
      if beginsDeclaration tokens || nextIs "final" tokens then (declaration tokens).later
      else (expressionStatement tokens).later
    return ⟨some stmt, rest, lt⟩

structure ForHeader where
  init : Option Stmt
  condition : Option Expr
  update : List Expr

def forHeader (tokens : List Token) : Reading ForHeader tokens.length := do
  let ⟨_, rest, lt⟩ ← expect "(" tokens
  let ⟨init, rest, lt⟩ ← (forInit rest).optional lt
  let ⟨_, rest, lt⟩ ← (expect ";" rest).behind lt
  let ⟨condition, rest, lt⟩ ← (expressionUnless ";" rest).optional lt
  let ⟨_, rest, lt⟩ ← (expect ";" rest).behind lt
  let ⟨update, rest, lt⟩ ← (expressionsUnless ")" rest).optional lt
  let ⟨_, rest, lt⟩ ← (expect ")" rest).behind lt
  return ⟨⟨init, condition, update⟩, rest, lt⟩

/-- The exception type and name in the parentheses of a `catch`. -/
def catchHeader (tokens : List Token) : Reading (TypeName × Token) tokens.length := do
  let ⟨_, rest, lt⟩ ← expect "(" tokens
  let ⟨exception, rest, lt⟩ ← (typeName rest).behind lt
  let ⟨name, rest, lt⟩ ← (identifier rest).behind lt
  let ⟨_, rest, lt⟩ ← (expect ")" rest).behind lt
  return ⟨(exception, name), rest, lt⟩

/-- The statements of a case end before the next label and before the end of the switch. -/
def endsCase (token : Token) : Bool :=
  token.lexeme = "case" || token.lexeme = "default" || token.lexeme = "\x7d"

/-- The labelled parts of a switch. -/
structure SwitchBody where
  cases : List (SwitchCase Stmt)
  default : Option (List Stmt)

mutual

def statement : (tokens : List Token) → Reading Stmt tokens.length
  | [] => fail .statement []
  | token :: rest =>
    match token.lexeme with
    | "\x7b" => do
      let ⟨body, rest, lt⟩ ← (blockBody rest).later
      return ⟨.block body, rest, lt⟩
    | ";" => return .here .empty rest
    | "if" => do
      let ⟨condition, rest, lt⟩ ← (parenthesized rest).later
      let ⟨thenBranch, rest, lt⟩ ← (statement rest).behind lt
      match skip? "else" rest lt with
      | none => return ⟨.ifElse condition thenBranch none, rest, lt⟩
      | some ⟨_, rest, lt⟩ => do
        let ⟨elseBranch, rest, lt⟩ ← (statement rest).behind lt
        return ⟨.ifElse condition thenBranch (some elseBranch), rest, lt⟩
    | "while" => do
      let ⟨condition, rest, lt⟩ ← (parenthesized rest).later
      let ⟨body, rest, lt⟩ ← (statement rest).behind lt
      return ⟨.whileLoop condition body, rest, lt⟩
    | "do" => do
      let ⟨body, rest, lt⟩ ← (statement rest).later
      let ⟨_, rest, lt⟩ ← (expect "while" rest).behind lt
      let ⟨condition, rest, lt⟩ ← (parenthesized rest).behind lt
      let ⟨_, rest, lt⟩ ← (expect ";" rest).behind lt
      return ⟨.doWhile body condition, rest, lt⟩
    | "for" => do
      let ⟨header, rest, lt⟩ ← (forHeader rest).later
      let ⟨body, rest, lt⟩ ← (statement rest).behind lt
      return ⟨.forLoop header.init header.condition header.update body, rest, lt⟩
    | "switch" => do
      let ⟨scrutinee, rest, lt⟩ ← (parenthesized rest).later
      let ⟨_, rest, lt⟩ ← (expect "\x7b" rest).behind lt
      let ⟨body, rest, lt⟩ ← (switchBody rest).behind lt
      return ⟨.switch scrutinee body.cases body.default, rest, lt⟩
    | "try" => do
      let ⟨body, rest, lt⟩ ← (block rest).later
      let ⟨clauses, rest, lt⟩ ← (catches rest).optional lt
      match skip? "finally" rest lt with
      | some ⟨_, rest, lt⟩ => do
        let ⟨cleanup, rest, lt⟩ ← (block rest).behind lt
        return ⟨.tryCatch body clauses (some cleanup), rest, lt⟩
      | none =>
        if clauses.isEmpty then fail .handler rest
        else return ⟨.tryCatch body clauses none, rest, lt⟩
    | "return" => do
      let ⟨value, rest, lt⟩ ← expressionUnless ";" rest
      let ⟨_, rest, lt⟩ ← (expect ";" rest).behind lt
      return ⟨.returns value token.position, rest, lt⟩
    | "break" => do
      let ⟨_, rest, lt⟩ ← (expect ";" rest).later
      return ⟨.breaks, rest, lt⟩
    | "continue" => do
      let ⟨_, rest, lt⟩ ← (expect ";" rest).later
      return ⟨.continues, rest, lt⟩
    | _ =>
      if token.kind = .printCall then (printCall token rest).later
      else do
        let ⟨stmt, rest, lt⟩ ← declarationOrExpression (token :: rest)
        let ⟨_, rest, lt⟩ ← (expect ";" rest).behind lt
        return ⟨stmt, rest, lt⟩
termination_by tokens => 2 * tokens.length
decreasing_by
  all_goals
    simp only [List.length_cons] at *
    omega

def block (tokens : List Token) : Reading (List Stmt) tokens.length := do
  let ⟨_, rest, lt⟩ ← expect "\x7b" tokens
  (blockBody rest).behind lt
termination_by 2 * tokens.length
decreasing_by all_goals omega

/-- Statements up to the brace that closes their block, and the brace. -/
def blockBody : (tokens : List Token) → Reading (List Stmt) tokens.length
  | [] => fail .blockEnd []
  | token :: rest =>
    if token.lexeme = "\x7d" then return .here [] rest
    else do
      let ⟨stmt, rest, lt⟩ ← statement (token :: rest)
      let ⟨more, rest, lt⟩ ← (blockBody rest).behind lt
      return ⟨stmt :: more, rest, lt⟩
termination_by tokens => 2 * tokens.length + 1
decreasing_by
  all_goals
    simp only [List.length_cons] at *
    omega

def catches : (tokens : List Token) → Reading (List (CatchClause Stmt)) (tokens.length + 1)
  | [] => return .here [] []
  | token :: rest =>
    if token.lexeme = "catch" then Reading.later do
      let ⟨(exception, name), rest, lt⟩ ← (catchHeader rest).later
      let ⟨body, rest, lt⟩ ← (block rest).behind lt
      let ⟨more, rest, lt⟩ ← (catches rest).optional lt
      return ⟨⟨exception, name.lexeme, body, name.position⟩ :: more, rest, lt⟩
    else return .here [] (token :: rest)
termination_by tokens => 2 * tokens.length
decreasing_by
  all_goals
    simp only [List.length_cons] at *
    omega

/-- Labelled parts up to the brace that closes the switch, and the brace. The last default holds. -/
def switchBody : (tokens : List Token) → Reading SwitchBody tokens.length
  | [] => fail .switchLabel []
  | token :: rest =>
    if token.lexeme = "case" then do
      let ⟨value, rest, lt⟩ ← (expression rest).later
      let ⟨_, rest, lt⟩ ← (expect ":" rest).behind lt
      let ⟨body, rest, lt⟩ ← (caseBody rest).optional lt
      let ⟨more, rest, lt⟩ ← (switchBody rest).behind lt
      return ⟨⟨⟨value, body⟩ :: more.cases, more.default⟩, rest, lt⟩
    else if token.lexeme = "default" then do
      let ⟨_, rest, lt⟩ ← (expect ":" rest).later
      let ⟨body, rest, lt⟩ ← (caseBody rest).optional lt
      let ⟨more, rest, lt⟩ ← (switchBody rest).behind lt
      return ⟨⟨more.cases, more.default.or (some body)⟩, rest, lt⟩
    else if token.lexeme = "\x7d" then return .here ⟨[], none⟩ rest
    else fail .switchLabel (token :: rest)
termination_by tokens => 2 * tokens.length
decreasing_by
  all_goals
    simp only [List.length_cons] at *
    omega

def caseBody : (tokens : List Token) → Reading (List Stmt) (tokens.length + 1)
  | [] => fail .switchEnd []
  | token :: rest =>
    if endsCase token then return .here [] (token :: rest)
    else Reading.later do
      let ⟨stmt, rest, lt⟩ ← statement (token :: rest)
      let ⟨more, rest, lt⟩ ← (caseBody rest).optional lt
      return ⟨stmt :: more, rest, lt⟩
termination_by tokens => 2 * tokens.length + 1
decreasing_by
  all_goals
    simp only [List.length_cons] at *
    omega

end

end MiniJava.Grammar
