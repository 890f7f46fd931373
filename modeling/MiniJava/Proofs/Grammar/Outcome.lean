import MiniJava.Grammar.Expression

/-!
# What a reading gives

A reading carries a bound on the tokens that are left, so that readers come to an end. Its outcome
leaves the bound out: the value and the tokens that are left, or the error. The readers of
expressions are given here as equations between outcomes.
-/

namespace MiniJava.Grammar

abbrev Outcome (α : Type) := Except SyntaxError (α × List Token)

variable {α β : Type} {m n : Nat}

namespace Outcome

def andThen : Outcome α → (α → List Token → Outcome β) → Outcome β
  | .ok (value, rest), next => next value rest
  | .error error, _ => .error error

@[simp] theorem ok_andThen (value : α) (rest : List Token) (next : α → List Token → Outcome β) :
    andThen (.ok (value, rest)) next = next value rest := rfl

theorem andThen_eq_ok {first : Outcome α} {next : α → List Token → Outcome β}
    {result : β × List Token} :
    first.andThen next = .ok result ↔
      ∃ value rest, first = .ok (value, rest) ∧ next value rest = .ok result := by
  cases first with
  | error error => simp [andThen]
  | ok read =>
      constructor
      · intro h
        exact ⟨read.1, read.2, rfl, h⟩
      · rintro ⟨value, rest, hread, h⟩
        cases hread
        exact h

theorem andThen_assoc {γ : Type} (first : Outcome α) (next : α → List Token → Outcome β)
    (last : β → List Token → Outcome γ) :
    (first.andThen next).andThen last = first.andThen fun a rest => (next a rest).andThen last := by
  cases first <;> rfl

end Outcome

namespace Reading

def outcome (reading : Reading α n) : Outcome α :=
  reading.map fun parsed => (parsed.value, parsed.rest)

@[simp] theorem outcome_behind (reading : Reading α m) (lt : m < n) :
    (reading.behind lt).outcome = reading.outcome := by cases reading <;> rfl

@[simp] theorem outcome_optional (reading : Reading α (m + 1)) (lt : m < n) :
    (reading.optional lt).outcome = reading.outcome := by cases reading <;> rfl

@[simp] theorem outcome_first (reading : Reading α m) (lt : m < n + 1) :
    (reading.first lt).outcome = reading.outcome := by cases reading <;> rfl

@[simp] theorem outcome_later (reading : Reading α m) :
    reading.later.outcome = reading.outcome := by cases reading <;> rfl

theorem length_lt_of_outcome {reading : Reading α n} {value : α} {rest : List Token}
    (h : reading.outcome = .ok (value, rest)) : rest.length < n := by
  cases reading with
  | error error => cases h
  | ok parsed =>
      cases h
      exact parsed.lt

/-- Readings that follow each other, if the second does not look at the bound. -/
theorem outcome_bind {reading : Reading α m} {next : Parsed α m → Reading β n}
    {first : Outcome α} {after : α → List Token → Outcome β} (hfirst : reading.outcome = first)
    (h : ∀ parsed, (next parsed).outcome = after parsed.value parsed.rest) :
    outcome (reading >>= next) = first.andThen after := by
  subst hfirst
  cases reading with
  | error error => rfl
  | ok parsed => exact h parsed

end Reading

theorem outcome_expect_cons (lexeme : String) (token : Token) (rest : List Token) :
    (expect lexeme (token :: rest)).outcome =
      if token.lexeme = lexeme then .ok (token, rest)
      else .error (.atNext (.lexeme lexeme) (token :: rest)) := by
  rw [expect]
  split <;> rfl

theorem outcome_identifier_cons (token : Token) (rest : List Token) :
    (identifier (token :: rest)).outcome =
      if token.kind = .identifier then .ok (token, rest)
      else .error (.atNext .identifier (token :: rest)) := by
  rw [identifier]
  split <;> rfl

theorem outcome_expression_nil : (expression []).outcome = (binary 1 []).outcome := by
  rw [expression]

theorem outcome_expression_singleton (token : Token) :
    (expression [token]).outcome = (binary 1 [token]).outcome := by
  rw [expression]

theorem outcome_expression_assign {target sign : Token} (rest : List Token)
    (h : beginsAssignment target sign = true) :
    (expression (target :: sign :: rest)).outcome =
      (expression rest).outcome.andThen fun value rest =>
        .ok (.assign target.lexeme (assignedOp? sign.lexeme) value target.position, rest) := by
  rw [expression, if_pos h]
  exact Reading.outcome_bind (by simp) fun _ => rfl

theorem outcome_expression_binary {target sign : Token} (rest : List Token)
    (h : beginsAssignment target sign = false) :
    (expression (target :: sign :: rest)).outcome =
      (binary 1 (target :: sign :: rest)).outcome := by
  rw [expression, if_neg (by simp [h])]

theorem outcome_binary (least : Nat) (tokens : List Token) :
    (binary least tokens).outcome =
      (unary tokens).outcome.andThen fun lhs rest => (climb least lhs rest).outcome := by
  rw [binary]
  exact Reading.outcome_bind rfl fun _ => Reading.outcome_optional _ _

theorem outcome_climb_nil (least : Nat) (lhs : Expr) :
    (climb least lhs []).outcome = .ok (lhs, []) := by
  rw [climb]
  rfl

theorem outcome_climb_stop {least : Nat} {token : Token} (lhs : Expr) (rest : List Token)
    (h : ∀ op ∈ binaryOp? token, op.precedence < least) :
    (climb least lhs (token :: rest)).outcome = .ok (lhs, token :: rest) := by
  rw [climb]
  cases hop : binaryOp? token with
  | none => rfl
  | some op =>
      simp only [if_pos (h op hop)]
      rfl

theorem outcome_climb_go {least : Nat} {token : Token} {op : BinaryOp} (lhs : Expr)
    (rest : List Token) (hop : binaryOp? token = some op) (h : least ≤ op.precedence) :
    (climb least lhs (token :: rest)).outcome =
      (binary (op.precedence + 1) rest).outcome.andThen fun rhs rest =>
        (climb least (.binary op lhs rhs) rest).outcome := by
  rw [climb, hop]
  simp only [if_neg (Nat.not_lt.mpr h)]
  exact Reading.outcome_bind (by simp) fun _ => by simp

theorem outcome_unary_nil : (unary []).outcome = (primary []).outcome := by
  rw [unary]

theorem outcome_unary_sign {token : Token} {op : UnaryOp} (rest : List Token)
    (h : UnaryOp.ofSymbol? token.lexeme = some op) :
    (unary (token :: rest)).outcome =
      (unary rest).outcome.andThen fun operand rest => .ok (.unary op operand, rest) := by
  rw [unary, h]
  exact Reading.outcome_bind (by simp) fun _ => rfl

theorem outcome_unary_step {token : Token} {op : StepOp} (rest : List Token)
    (hunary : UnaryOp.ofSymbol? token.lexeme = none)
    (h : StepOp.ofSymbol? token.lexeme = some op) :
    (unary (token :: rest)).outcome =
      (identifier rest).outcome.andThen fun target rest =>
        .ok (.step target.lexeme op .before target.position, rest) := by
  rw [unary, hunary, h]
  exact Reading.outcome_bind (by simp) fun _ => rfl

theorem outcome_unary_operand {token : Token} (rest : List Token)
    (hunary : UnaryOp.ofSymbol? token.lexeme = none)
    (hstep : StepOp.ofSymbol? token.lexeme = none) :
    (unary (token :: rest)).outcome =
      (primary (token :: rest)).outcome.andThen fun operand rest =>
        .ok ((stepBehind operand rest).value, (stepBehind operand rest).rest) := by
  rw [unary, hunary, hstep]
  exact Reading.outcome_bind (by simp) fun _ => rfl

theorem stepBehind_step (target : String) (position : Position) {sign : Token} {op : StepOp}
    (rest : List Token) (h : StepOp.ofSymbol? sign.lexeme = some op) :
    stepBehind (.name target position) (sign :: rest) =
      (Parsed.here (.step target op .behind position) rest).later := by
  simp only [stepBehind, h]

theorem stepBehind_other (operand : Expr) {next : Token} (rest : List Token)
    (h : StepOp.ofSymbol? next.lexeme = none) :
    stepBehind operand (next :: rest) = .here operand (next :: rest) := by
  simp only [stepBehind, h]

theorem outcome_primary_atom {token : Token} {e : Expr} (rest : List Token)
    (h : atom? token = some e) : (primary (token :: rest)).outcome = .ok (e, rest) := by
  rw [primary, h]
  rfl

theorem outcome_primary_group {token : Token} (rest : List Token) (hatom : atom? token = none)
    (h : token.lexeme = "(") :
    (primary (token :: rest)).outcome =
      (expression rest).outcome.andThen fun e rest =>
        (expect ")" rest).outcome.andThen fun _ rest => .ok (e, rest) := by
  rw [primary, hatom, if_pos h]
  refine Reading.outcome_bind (by simp) fun parsed => ?_
  exact Reading.outcome_bind (by simp) fun _ => rfl

theorem outcome_primary_other {token : Token} (rest : List Token) (hatom : atom? token = none)
    (h : token.lexeme ≠ "(") :
    (primary (token :: rest)).outcome = .error (.atNext .expression (token :: rest)) := by
  rw [primary, hatom, if_neg h]
  rfl

theorem outcome_primary_nil : (primary []).outcome = .error (.unexpectedEnd .expression) := by
  rw [primary]
  rfl

end MiniJava.Grammar
