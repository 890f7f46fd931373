import MiniJava.Grammar.Reading
import MiniJava.Syntax.Expr

/-!
# Expressions in a token table

From loosest to tightest: assignment, which groups to the right; ten levels of binary operators,
which group to the left and are read by climbing from one level to the next; unary operators and
steps; literals, names and parentheses.
-/

namespace MiniJava.Grammar

/-- The text between the first and the last character. -/
def unquote (lexeme : String) : String := String.ofList (lexeme.toList.tail.dropLast)

/-- Literals and names stand for themselves. -/
def atom? (token : Token) : Option Expr :=
  match token.kind with
  | .number => some (.literal (.number token.lexeme) token.position)
  | .stringLiteral => some (.literal (.string (unquote token.lexeme)) token.position)
  | .charLiteral => some (.literal (.char (unquote token.lexeme)) token.position)
  | .booleanLiteral => some (.literal (.bool (token.lexeme = "true")) token.position)
  | .nullLiteral => some (.literal .null token.position)
  | .identifier => some (.name token.lexeme token.position)
  | _ => none

def binaryOp? (token : Token) : Option BinaryOp :=
  match token.kind with
  | .arithmeticOperator | .relationalOperator | .logicalOperator | .bitwiseOperator =>
    BinaryOp.ofSymbol? token.lexeme
  | _ => none

/-- A name and an assignment operator behind it begin an assignment. -/
def beginsAssignment (target sign : Token) : Bool :=
  target.kind = .identifier && (sign.kind = .assignmentOperator || sign.kind = .compoundOperator)

/-- The operator that a compound assignment applies; a plain `=` applies none. -/
def assignedOp? (lexeme : String) : Option BinaryOp :=
  BinaryOp.ofSymbol? (String.ofList lexeme.toList.dropLast)

/-- A name takes the `++` or `--` behind it; any other operand leaves it. -/
def stepBehind (operand : Expr) : (tokens : List Token) → Parsed Expr (tokens.length + 1)
  | [] => .here operand []
  | token :: rest =>
    match operand, StepOp.ofSymbol? token.lexeme with
    | .name target position, some op => (Parsed.here (.step target op .behind position) rest).later
    | _, _ => .here operand (token :: rest)

mutual

def expression : (tokens : List Token) → Reading Expr tokens.length
  | [] => binary 1 []
  | [token] => binary 1 [token]
  | target :: sign :: rest =>
    if beginsAssignment target sign then do
      let ⟨value, rest, lt⟩ ← (expression rest).later.later
      return ⟨.assign target.lexeme (assignedOp? sign.lexeme) value target.position, rest, lt⟩
    else binary 1 (target :: sign :: rest)
termination_by tokens => 5 * tokens.length + 4
decreasing_by
  all_goals
    simp only [List.length_cons, List.length_nil] at *
    omega

/-- Operators of at least the given strength and their operands. -/
def binary (least : Nat) (tokens : List Token) : Reading Expr tokens.length := do
  let ⟨lhs, rest, lt⟩ ← unary tokens
  (climb least lhs rest).optional lt
termination_by 5 * tokens.length + 3
decreasing_by all_goals omega

/-- Extends a left operand by the operators behind it, as long as they are strong enough. -/
def climb (least : Nat) (lhs : Expr) : (tokens : List Token) → Reading Expr (tokens.length + 1)
  | [] => return .here lhs []
  | token :: rest =>
    match binaryOp? token with
    | none => return .here lhs (token :: rest)
    | some op =>
      if op.precedence < least then return .here lhs (token :: rest)
      else do
        let ⟨rhs, rest, lt⟩ ← (binary (op.precedence + 1) rest).later
        ((climb least (.binary op lhs rhs) rest).optional lt).later
termination_by tokens => 5 * tokens.length
decreasing_by
  all_goals
    simp only [List.length_cons] at *
    omega

def unary : (tokens : List Token) → Reading Expr tokens.length
  | [] => primary []
  | token :: rest =>
    match UnaryOp.ofSymbol? token.lexeme, StepOp.ofSymbol? token.lexeme with
    | some op, _ => do
      let ⟨operand, rest, lt⟩ ← (unary rest).later
      return ⟨.unary op operand, rest, lt⟩
    | none, some op => do
      let ⟨target, rest, lt⟩ ← (identifier rest).later
      return ⟨.step target.lexeme op .before target.position, rest, lt⟩
    | none, none => do
      let ⟨operand, rest, lt⟩ ← primary (token :: rest)
      return (stepBehind operand rest).optional lt
termination_by tokens => 5 * tokens.length + 2
decreasing_by
  all_goals
    simp only [List.length_cons, List.length_nil] at *
    omega

def primary : (tokens : List Token) → Reading Expr tokens.length
  | [] => fail .expression []
  | token :: rest =>
    match atom? token with
    | some expr => return .here expr rest
    | none =>
      if token.lexeme = "(" then do
        let ⟨expr, rest, lt⟩ ← (expression rest).later
        let ⟨_, rest, lt⟩ ← (expect ")" rest).behind lt
        return ⟨expr, rest, lt⟩
      else fail .expression (token :: rest)
termination_by tokens => 5 * tokens.length + 1
decreasing_by
  all_goals
    simp only [List.length_cons] at *
    omega

end

def parenthesized (tokens : List Token) : Reading Expr tokens.length := do
  let ⟨_, rest, lt⟩ ← expect "(" tokens
  let ⟨expr, rest, lt⟩ ← (expression rest).behind lt
  let ⟨_, rest, lt⟩ ← (expect ")" rest).behind lt
  return ⟨expr, rest, lt⟩

/-- One or more expressions with commas between them. -/
def expressions (tokens : List Token) : Reading (List Expr) tokens.length := do
  let ⟨expr, rest, lt⟩ ← expression tokens
  match skip? "," rest lt with
  | none => return ⟨[expr], rest, lt⟩
  | some ⟨_, rest, lt⟩ => do
    let ⟨exprs, rest, lt⟩ ← (expressions rest).behind lt
    return ⟨expr :: exprs, rest, lt⟩
termination_by tokens.length
decreasing_by all_goals omega

/-- An expression, or nothing if `stop` comes next. -/
def expressionUnless (stop : String) (tokens : List Token) :
    Reading (Option Expr) (tokens.length + 1) :=
  if nextIs stop tokens then return .here none tokens
  else do
    let ⟨expr, rest, lt⟩ ← (expression tokens).later
    return ⟨some expr, rest, lt⟩

/-- Expressions with commas between them, or none if `stop` comes next. -/
def expressionsUnless (stop : String) (tokens : List Token) :
    Reading (List Expr) (tokens.length + 1) :=
  if nextIs stop tokens then return .here [] tokens else (expressions tokens).later

end MiniJava.Grammar
