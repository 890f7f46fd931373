import MiniJava.Proofs.Grammar.ProgramOutcome
import MiniJava.Proofs.Syntax.Moved

/-!
# Readers do not look at positions

Reading a table whose tokens have been moved gives what reading the table gives, moved along: the
same value or the same error, with the same tokens left. This is shown for one reader after the
other, in the order in which they call each other.
-/

namespace MiniJava.Grammar

variable (f : Position → Position)

namespace Outcome

variable {α β γ δ : Type}

def moved (g : α → β) : Outcome α → Outcome β
  | .ok (value, rest) => .ok (g value, movedTokens f rest)
  | .error error => .error (error.moved f)

/-- Readers that follow each other move along if each of them does. -/
theorem andThen_moved {g : α → β} {k : γ → δ} {first : Outcome α} {first' : Outcome β}
    {next : α → List Token → Outcome γ} {next' : β → List Token → Outcome δ}
    (hfirst : first' = first.moved f g)
    (hnext : ∀ value rest, first = .ok (value, rest) →
      next' (g value) (movedTokens f rest) = (next value rest).moved f k) :
    first'.andThen next' = (first.andThen next).moved f k := by
  subst hfirst
  cases first with
  | error error => rfl
  | ok read => exact hnext read.1 read.2 rfl

theorem ite_moved {g : α → β} {c : Prop} [Decidable c] {yes no : Outcome α} {yes' no' : Outcome β}
    (hyes : yes' = yes.moved f g) (hno : no' = no.moved f g) :
    (if c then yes' else no') = (if c then yes else no).moved f g := by
  split
  · exact hyes
  · exact hno

end Outcome

open Outcome

@[simp] theorem nextIs_moved (lexeme : String) (tokens : List Token) :
    nextIs lexeme (movedTokens f tokens) = nextIs lexeme tokens := by cases tokens <;> rfl

theorem tail_moved (tokens : List Token) :
    (movedTokens f tokens).tail = movedTokens f tokens.tail := by cases tokens <;> rfl

theorem error_moved {α β : Type} (g : α → β) (expected : Expected) (tokens : List Token) :
    (.error (.atNext expected (movedTokens f tokens)) : Outcome β) =
      Outcome.moved f g (.error (.atNext expected tokens)) := by
  rw [SyntaxError.atNext_moved]
  rfl

theorem expect_moved (lexeme : String) (tokens : List Token) :
    (expect lexeme (movedTokens f tokens)).outcome =
      (expect lexeme tokens).outcome.moved f (Token.moved f) := by
  cases tokens with
  | nil => rfl
  | cons token rest =>
      rw [movedTokens_cons, outcome_expect_cons, outcome_expect_cons]
      exact ite_moved f rfl (error_moved f _ _ (token :: rest))

theorem identifier_moved (tokens : List Token) :
    (identifier (movedTokens f tokens)).outcome =
      (identifier tokens).outcome.moved f (Token.moved f) := by
  cases tokens with
  | nil => rfl
  | cons token rest =>
      rw [movedTokens_cons, outcome_identifier_cons, outcome_identifier_cons]
      exact ite_moved f rfl (error_moved f _ _ (token :: rest))

theorem atom?_moved (token : Token) :
    atom? (token.moved f) = (atom? token).map (Expr.moved f) := by
  unfold atom?
  rw [Token.kind_moved]
  split <;> rfl

theorem stepBehind_moved (operand : Expr) (tokens : List Token) :
    let moved := stepBehind (operand.moved f) (movedTokens f tokens)
    moved.value = (stepBehind operand tokens).value.moved f ∧
      moved.rest = movedTokens f (stepBehind operand tokens).rest := by
  cases tokens with
  | nil => exact ⟨rfl, rfl⟩
  | cons token rest =>
      cases hop : StepOp.ofSymbol? token.lexeme with
      | none =>
          have hmoved : StepOp.ofSymbol? (token.moved f).lexeme = none := hop
          rw [movedTokens_cons, stepBehind_other _ _ hop, stepBehind_other _ _ hmoved]
          exact ⟨rfl, rfl⟩
      | some op =>
          have hmoved : StepOp.ofSymbol? (token.moved f).lexeme = some op := hop
          cases operand with
          | name target position =>
              rw [movedTokens_cons, Expr.moved, stepBehind_step target _ _ hop,
                stepBehind_step target _ _ hmoved]
              exact ⟨rfl, rfl⟩
          | _ => exact ⟨rfl, rfl⟩

mutual

theorem expression_moved : (tokens : List Token) →
    (expression (movedTokens f tokens)).outcome =
      (expression tokens).outcome.moved f (Expr.moved f)
  | [] => by
      rw [movedTokens_nil, outcome_expression_nil]
      exact binary_moved 1 []
  | [token] => by
      rw [movedTokens_cons, movedTokens_nil, outcome_expression_singleton,
        outcome_expression_singleton]
      exact binary_moved 1 [token]
  | target :: sign :: rest => by
      rw [movedTokens_cons, movedTokens_cons]
      cases h : beginsAssignment target sign with
      | true =>
          have hmoved : beginsAssignment (target.moved f) (sign.moved f) = true := h
          rw [outcome_expression_assign _ h, outcome_expression_assign _ hmoved]
          exact andThen_moved f (expression_moved rest) fun _ _ _ => rfl
      | false =>
          have hmoved : beginsAssignment (target.moved f) (sign.moved f) = false := h
          rw [outcome_expression_binary _ h, outcome_expression_binary _ hmoved]
          exact binary_moved 1 (target :: sign :: rest)
termination_by tokens => 5 * tokens.length + 4
decreasing_by
  all_goals
    simp only [List.length_cons, List.length_nil] at *
    omega

theorem binary_moved (least : Nat) (tokens : List Token) :
    (binary least (movedTokens f tokens)).outcome =
      (binary least tokens).outcome.moved f (Expr.moved f) := by
  rw [outcome_binary, outcome_binary]
  refine andThen_moved f (unary_moved tokens) fun lhs rest hread => ?_
  have hlt := Reading.length_lt_of_outcome hread
  exact climb_moved least lhs rest
termination_by 5 * tokens.length + 3
decreasing_by all_goals omega

theorem climb_moved (least : Nat) (lhs : Expr) : (tokens : List Token) →
    (climb least (lhs.moved f) (movedTokens f tokens)).outcome =
      (climb least lhs tokens).outcome.moved f (Expr.moved f)
  | [] => by
      rw [movedTokens_nil, outcome_climb_nil, outcome_climb_nil]
      rfl
  | token :: rest => by
      rw [movedTokens_cons]
      have hmoved : binaryOp? (token.moved f) = binaryOp? token := rfl
      by_cases hstop : ∀ op ∈ binaryOp? token, op.precedence < least
      · rw [outcome_climb_stop _ _ hstop, outcome_climb_stop _ _ (hmoved ▸ hstop)]
        rfl
      · obtain ⟨op, hop, hle⟩ : ∃ op, binaryOp? token = some op ∧ least ≤ op.precedence := by
          simpa using hstop
        rw [outcome_climb_go _ _ hop hle, outcome_climb_go _ _ (hmoved.trans hop) hle]
        refine andThen_moved f (binary_moved _ rest) fun rhs behind hread => ?_
        have hlt := Reading.length_lt_of_outcome hread
        exact climb_moved least (.binary op lhs rhs) behind
termination_by tokens => 5 * tokens.length
decreasing_by
  all_goals
    simp only [List.length_cons] at *
    omega

theorem unary_moved : (tokens : List Token) →
    (unary (movedTokens f tokens)).outcome = (unary tokens).outcome.moved f (Expr.moved f)
  | [] => by
      rw [movedTokens_nil, outcome_unary_nil]
      exact primary_moved []
  | token :: rest => by
      rw [movedTokens_cons]
      have hlexeme : (token.moved f).lexeme = token.lexeme := rfl
      cases hunary : UnaryOp.ofSymbol? token.lexeme with
      | some op =>
          rw [outcome_unary_sign _ hunary, outcome_unary_sign _ (hlexeme ▸ hunary)]
          exact andThen_moved f (unary_moved rest) fun _ _ _ => rfl
      | none =>
          cases hstep : StepOp.ofSymbol? token.lexeme with
          | some op =>
              rw [outcome_unary_step _ hunary hstep,
                outcome_unary_step _ (hlexeme ▸ hunary) (hlexeme ▸ hstep)]
              exact andThen_moved f (identifier_moved f rest) fun _ _ _ => rfl
          | none =>
              rw [outcome_unary_operand _ hunary hstep,
                outcome_unary_operand _ (hlexeme ▸ hunary) (hlexeme ▸ hstep)]
              refine andThen_moved f (primary_moved (token :: rest)) fun operand behind _ => ?_
              obtain ⟨hvalue, hrest⟩ := stepBehind_moved f operand behind
              rw [hvalue, hrest]
              rfl
termination_by tokens => 5 * tokens.length + 2
decreasing_by
  all_goals
    simp only [List.length_cons, List.length_nil] at *
    omega

theorem primary_moved : (tokens : List Token) →
    (primary (movedTokens f tokens)).outcome = (primary tokens).outcome.moved f (Expr.moved f)
  | [] => by
      rw [movedTokens_nil, outcome_primary_nil]
      rfl
  | token :: rest => by
      rw [movedTokens_cons]
      have hmoved := atom?_moved f token
      cases hatom : atom? token with
      | some e =>
          rw [hatom] at hmoved
          rw [outcome_primary_atom _ hatom, outcome_primary_atom _ hmoved]
          rfl
      | none =>
          rw [hatom] at hmoved
          by_cases hopening : token.lexeme = "("
          · have hsame : (token.moved f).lexeme = "(" := hopening
            rw [outcome_primary_group _ hatom hopening, outcome_primary_group _ hmoved hsame]
            refine andThen_moved f (expression_moved rest) fun e behind _ => ?_
            exact andThen_moved f (expect_moved f ")" behind) fun _ _ _ => rfl
          · have hsame : (token.moved f).lexeme ≠ "(" := hopening
            rw [outcome_primary_other _ hatom hopening, outcome_primary_other _ hmoved hsame]
            exact error_moved f _ _ (token :: rest)
termination_by tokens => 5 * tokens.length + 1
decreasing_by
  all_goals
    simp only [List.length_cons] at *
    omega

end

theorem parenthesized_moved (tokens : List Token) :
    (parenthesized (movedTokens f tokens)).outcome =
      (parenthesized tokens).outcome.moved f (Expr.moved f) := by
  rw [outcome_parenthesized, outcome_parenthesized]
  refine andThen_moved f (expect_moved f "(" tokens) fun _ rest _ => ?_
  refine andThen_moved f (expression_moved f rest) fun e rest _ => ?_
  exact andThen_moved f (expect_moved f ")" rest) fun _ _ _ => rfl

theorem expressions_moved (tokens : List Token) :
    (expressions (movedTokens f tokens)).outcome =
      (expressions tokens).outcome.moved f (List.map (Expr.moved f)) := by
  rw [outcome_expressions, outcome_expressions]
  refine andThen_moved f (expression_moved f tokens) fun e rest hread => ?_
  have hlt := Reading.length_lt_of_outcome hread
  rw [nextIs_moved, tail_moved]
  exact ite_moved f (andThen_moved f (expressions_moved rest.tail) fun _ _ _ => rfl) rfl
termination_by tokens.length
decreasing_by
  rw [List.length_tail]
  omega

theorem expressionUnless_moved (stop : String) (tokens : List Token) :
    (expressionUnless stop (movedTokens f tokens)).outcome =
      (expressionUnless stop tokens).outcome.moved f (Option.map (Expr.moved f)) := by
  rw [outcome_expressionUnless, outcome_expressionUnless, nextIs_moved]
  exact ite_moved f rfl (andThen_moved f (expression_moved f tokens) fun _ _ _ => rfl)

theorem expressionsUnless_moved (stop : String) (tokens : List Token) :
    (expressionsUnless stop (movedTokens f tokens)).outcome =
      (expressionsUnless stop tokens).outcome.moved f (List.map (Expr.moved f)) := by
  rw [outcome_expressionsUnless, outcome_expressionsUnless, nextIs_moved]
  exact ite_moved f rfl (expressions_moved f tokens)

theorem modifiers_moved (tokens : List Token) :
    (modifiers (movedTokens f tokens)).value = (modifiers tokens).value ∧
      (modifiers (movedTokens f tokens)).rest = movedTokens f (modifiers tokens).rest := by
  induction tokens with
  | nil => exact ⟨rfl, rfl⟩
  | cons token rest ih =>
      rw [movedTokens_cons, modifiers, modifiers, Token.lexeme_moved]
      cases Modifier.ofWord? token.lexeme with
      | none => exact ⟨rfl, rfl⟩
      | some modifier => exact ⟨congrArg (modifier :: ·) ih.1, ih.2⟩

theorem dimensions_moved : (tokens : List Token) →
    (dimensions (movedTokens f tokens)).outcome = (dimensions tokens).outcome.moved f id
  | [] => rfl
  | [token] => by
      rw [movedTokens_cons, movedTokens_nil, dimensions, dimensions, Token.lexeme_moved]
      split <;> rfl
  | left :: right :: rest => by
      rw [movedTokens_cons, movedTokens_cons]
      by_cases hleft : left.lexeme = "["
      · by_cases hright : right.lexeme = "]"
        · have hleft' : (left.moved f).lexeme = "[" := hleft
          have hright' : (right.moved f).lexeme = "]" := hright
          rw [outcome_dimensions_pair _ hleft hright, outcome_dimensions_pair _ hleft' hright']
          exact andThen_moved f (dimensions_moved rest) fun _ _ _ => rfl
        · rw [dimensions, dimensions, Token.lexeme_moved, Token.lexeme_moved, if_pos hleft,
            if_neg hright, if_pos hleft, if_neg hright]
          exact error_moved f _ _ (right :: rest)
      · rw [dimensions, dimensions, Token.lexeme_moved, if_neg hleft, if_neg hleft]
        rfl

theorem typeName_moved (tokens : List Token) :
    (typeName (movedTokens f tokens)).outcome = (typeName tokens).outcome.moved f id := by
  cases tokens with
  | nil => rfl
  | cons token rest =>
      have hmoved : namesType (token.moved f) = namesType token := rfl
      rw [movedTokens_cons]
      by_cases hnames : namesType token = true
      · rw [outcome_typeName _ hnames, outcome_typeName _ (hmoved.trans hnames)]
        exact andThen_moved f (dimensions_moved f rest) fun _ _ _ => rfl
      · rw [typeName, typeName, if_neg hnames, if_neg (hmoved ▸ hnames)]
        exact error_moved f _ _ (token :: rest)

theorem nameFollows_moved : (tokens : List Token) →
    nameFollows (movedTokens f tokens) = nameFollows tokens
  | [] => rfl
  | [_] => rfl
  | first :: second :: rest => by
      rw [movedTokens_cons, movedTokens_cons, nameFollows, nameFollows, nameFollows_moved rest]
      rfl

theorem beginsDeclaration_moved (tokens : List Token) :
    beginsDeclaration (movedTokens f tokens) = beginsDeclaration tokens := by
  cases tokens with
  | nil => rfl
  | cons token rest =>
      rw [movedTokens_cons, beginsDeclaration, beginsDeclaration, nameFollows_moved]
      rfl

theorem initializer_moved (tokens : List Token) :
    (initializer (movedTokens f tokens)).outcome =
      (initializer tokens).outcome.moved f (Option.map (Expr.moved f)) := by
  cases hnext : nextIs "=" tokens with
  | false =>
      rw [outcome_initializer_none hnext,
        outcome_initializer_none ((nextIs_moved f _ tokens).trans hnext)]
      rfl
  | true =>
      cases tokens with
      | nil => cases hnext
      | cons token rest =>
          have hsign : token.lexeme = "=" := of_decide_eq_true hnext
          have hsign' : (token.moved f).lexeme = "=" := hsign
          rw [movedTokens_cons, outcome_initializer_some _ hsign,
            outcome_initializer_some _ hsign']
          exact andThen_moved f (expression_moved f rest) fun _ _ _ => rfl

theorem declarator_moved (mods : List Modifier) (type : TypeName) (name : Token)
    (tokens : List Token) :
    (declarator mods type (name.moved f) (movedTokens f tokens)).outcome =
      (declarator mods type name tokens).outcome.moved f (VarDecl.moved f) := by
  rw [outcome_declarator, outcome_declarator]
  exact andThen_moved f (initializer_moved f tokens) fun _ _ _ => rfl

theorem localVariable_moved (mods : List Modifier) (tokens : List Token) :
    (localVariable mods (movedTokens f tokens)).outcome =
      (localVariable mods tokens).outcome.moved f (VarDecl.moved f) := by
  rw [outcome_localVariable, outcome_localVariable]
  refine andThen_moved f (typeName_moved f tokens) fun type rest _ => ?_
  refine andThen_moved f (identifier_moved f rest) fun name rest _ => ?_
  exact declarator_moved f mods type name rest

theorem declaration_moved (tokens : List Token) :
    (declaration (movedTokens f tokens)).outcome =
      (declaration tokens).outcome.moved f (Stmt.moved f) := by
  obtain ⟨hvalue, hrest⟩ := modifiers_moved f tokens
  rw [outcome_declaration, outcome_declaration, hvalue, hrest]
  exact andThen_moved f (localVariable_moved f _ _) fun _ _ _ => rfl

theorem expressionStatement_moved (tokens : List Token) :
    (expressionStatement (movedTokens f tokens)).outcome =
      (expressionStatement tokens).outcome.moved f (Stmt.moved f) := by
  rw [outcome_expressionStatement, outcome_expressionStatement]
  exact andThen_moved f (expression_moved f tokens) fun _ _ _ => rfl

theorem declarationOrExpression_moved (tokens : List Token) :
    (declarationOrExpression (movedTokens f tokens)).outcome =
      (declarationOrExpression tokens).outcome.moved f (Stmt.moved f) := by
  rw [outcome_declarationOrExpression, outcome_declarationOrExpression,
    (modifiers_moved f tokens).1, beginsDeclaration_moved]
  exact ite_moved f (declaration_moved f tokens) (expressionStatement_moved f tokens)

theorem forInit_moved (tokens : List Token) :
    (forInit (movedTokens f tokens)).outcome =
      (forInit tokens).outcome.moved f (branchMoved f) := by
  rw [outcome_forInit, outcome_forInit, nextIs_moved, nextIs_moved, beginsDeclaration_moved]
  refine ite_moved f rfl (andThen_moved f ?_ fun _ _ _ => rfl)
  exact ite_moved f (declaration_moved f tokens) (expressionStatement_moved f tokens)

def ForHeader.moved (header : ForHeader) : ForHeader :=
  ⟨branchMoved f header.init, header.condition.map (Expr.moved f),
    header.update.map (Expr.moved f)⟩

theorem forHeader_moved (tokens : List Token) :
    (forHeader (movedTokens f tokens)).outcome =
      (forHeader tokens).outcome.moved f (ForHeader.moved f) := by
  rw [outcome_forHeader, outcome_forHeader]
  refine andThen_moved f (expect_moved f "(" tokens) fun _ rest _ => ?_
  refine andThen_moved f (forInit_moved f rest) fun init rest _ => ?_
  refine andThen_moved f (expect_moved f ";" rest) fun _ rest _ => ?_
  refine andThen_moved f (expressionUnless_moved f ";" rest) fun condition rest _ => ?_
  refine andThen_moved f (expect_moved f ";" rest) fun _ rest _ => ?_
  refine andThen_moved f (expressionsUnless_moved f ")" rest) fun update rest _ => ?_
  exact andThen_moved f (expect_moved f ")" rest) fun _ _ _ => rfl

theorem catchHeader_moved (tokens : List Token) :
    (catchHeader (movedTokens f tokens)).outcome =
      (catchHeader tokens).outcome.moved f (Prod.map id (Token.moved f)) := by
  rw [outcome_catchHeader, outcome_catchHeader]
  refine andThen_moved f (expect_moved f "(" tokens) fun _ rest _ => ?_
  refine andThen_moved f (typeName_moved f rest) fun exception rest _ => ?_
  refine andThen_moved f (identifier_moved f rest) fun name rest _ => ?_
  exact andThen_moved f (expect_moved f ")" rest) fun _ _ _ => rfl

theorem printCall_moved (call : Token) (tokens : List Token) :
    (printCall (call.moved f) (movedTokens f tokens)).outcome =
      (printCall call tokens).outcome.moved f (Stmt.moved f) := by
  rw [outcome_printCall, outcome_printCall]
  refine andThen_moved f (expect_moved f "(" tokens) fun _ rest _ => ?_
  refine andThen_moved f (expressionsUnless_moved f ")" rest) fun args rest _ => ?_
  refine andThen_moved f (expect_moved f ")" rest) fun _ rest _ => ?_
  exact andThen_moved f (expect_moved f ";" rest) fun _ _ _ => rfl

def SwitchBody.moved (body : SwitchBody) : SwitchBody :=
  ⟨casesMoved f body.cases, partMoved f body.default⟩

theorem isEmpty_catchesMoved (list : List (CatchClause Stmt)) :
    (catchesMoved f list).isEmpty = list.isEmpty := by
  cases list with
  | nil => rfl
  | cons first rest => rfl

theorem partMoved_or (part other : Option (List Stmt)) :
    partMoved f (part.or other) = (partMoved f part).or (partMoved f other) := by
  cases part <;> rfl

mutual

theorem statement_moved : (tokens : List Token) →
    (statement (movedTokens f tokens)).outcome = (statement tokens).outcome.moved f (Stmt.moved f)
  | [] => by
      rw [movedTokens_nil, outcome_statement_nil]
      rfl
  | token :: rest => by
      rw [movedTokens_cons]
      have hsame : (token.moved f).lexeme = token.lexeme := rfl
      by_cases hmem : token.lexeme ∈ statementLexemes
      · simp only [statementLexemes, List.mem_cons, List.not_mem_nil, or_false] at hmem
        rcases hmem with h | h | h | h | h | h | h | h | h | h | h
        · rw [outcome_statement_block _ h, outcome_statement_block _ (hsame.trans h)]
          exact andThen_moved f (blockBody_moved rest) fun _ _ _ => rfl
        · rw [outcome_statement_empty _ h, outcome_statement_empty _ (hsame.trans h)]
          rfl
        · rw [outcome_statement_if _ h, outcome_statement_if _ (hsame.trans h)]
          refine andThen_moved f (parenthesized_moved f rest) fun e behind hread => ?_
          have hlt := Reading.length_lt_of_outcome hread
          refine andThen_moved f (statement_moved behind) fun thenBranch tail hread => ?_
          have hshort := Reading.length_lt_of_outcome hread
          rw [nextIs_moved, tail_moved]
          exact ite_moved f (andThen_moved f (statement_moved tail.tail) fun _ _ _ => rfl) rfl
        · rw [outcome_statement_while _ h, outcome_statement_while _ (hsame.trans h)]
          refine andThen_moved f (parenthesized_moved f rest) fun e behind hread => ?_
          have hlt := Reading.length_lt_of_outcome hread
          exact andThen_moved f (statement_moved behind) fun _ _ _ => rfl
        · rw [outcome_statement_do _ h, outcome_statement_do _ (hsame.trans h)]
          refine andThen_moved f (statement_moved rest) fun body behind _ => ?_
          refine andThen_moved f (expect_moved f "while" behind) fun _ behind _ => ?_
          refine andThen_moved f (parenthesized_moved f behind) fun e behind _ => ?_
          exact andThen_moved f (expect_moved f ";" behind) fun _ _ _ => rfl
        · rw [outcome_statement_for _ h, outcome_statement_for _ (hsame.trans h)]
          refine andThen_moved f (forHeader_moved f rest) fun header behind hread => ?_
          have hlt := Reading.length_lt_of_outcome hread
          exact andThen_moved f (statement_moved behind) fun _ _ _ => rfl
        · rw [outcome_statement_switch _ h, outcome_statement_switch _ (hsame.trans h)]
          refine andThen_moved f (parenthesized_moved f rest) fun e behind hread => ?_
          have hlt := Reading.length_lt_of_outcome hread
          refine andThen_moved f (expect_moved f "\x7b" behind) fun _ tail hread => ?_
          have hshort := Reading.length_lt_of_outcome hread
          exact andThen_moved f (switchBody_moved tail) fun _ _ _ => rfl
        · rw [outcome_statement_try _ h, outcome_statement_try _ (hsame.trans h)]
          refine andThen_moved f (block_moved rest) fun body behind hread => ?_
          have hlt := Reading.length_lt_of_outcome hread
          refine andThen_moved f (catches_moved behind) fun clauses tail hread => ?_
          have hshort := Reading.length_lt_of_outcome hread
          rw [nextIs_moved, tail_moved, isEmpty_catchesMoved]
          refine ite_moved f (andThen_moved f (block_moved tail.tail) fun _ _ _ => rfl) ?_
          exact ite_moved f (error_moved f _ _ tail) rfl
        · rw [outcome_statement_return _ h, outcome_statement_return _ (hsame.trans h)]
          refine andThen_moved f (expressionUnless_moved f ";" rest) fun value behind _ => ?_
          exact andThen_moved f (expect_moved f ";" behind) fun _ _ _ => rfl
        · rw [outcome_statement_break _ h, outcome_statement_break _ (hsame.trans h)]
          exact andThen_moved f (expect_moved f ";" rest) fun _ _ _ => rfl
        · rw [outcome_statement_continue _ h, outcome_statement_continue _ (hsame.trans h)]
          exact andThen_moved f (expect_moved f ";" rest) fun _ _ _ => rfl
      · rw [outcome_statement_other _ hmem, outcome_statement_other _ (hsame ▸ hmem),
          Token.kind_moved]
        refine ite_moved f (printCall_moved f token rest) ?_
        refine andThen_moved f (declarationOrExpression_moved f (token :: rest))
          fun s behind _ => ?_
        exact andThen_moved f (expect_moved f ";" behind) fun _ _ _ => rfl
termination_by tokens => 2 * tokens.length
decreasing_by
  all_goals
    simp only [List.length_cons, List.length_tail] at *
    omega

theorem block_moved (tokens : List Token) :
    (block (movedTokens f tokens)).outcome = (block tokens).outcome.moved f (allMoved f) := by
  rw [outcome_block, outcome_block]
  refine andThen_moved f (expect_moved f "\x7b" tokens) fun _ rest hread => ?_
  have hlt := Reading.length_lt_of_outcome hread
  exact blockBody_moved rest
termination_by 2 * tokens.length
decreasing_by all_goals omega

theorem blockBody_moved : (tokens : List Token) →
    (blockBody (movedTokens f tokens)).outcome =
      (blockBody tokens).outcome.moved f (allMoved f)
  | [] => by
      rw [movedTokens_nil, outcome_blockBody_nil]
      rfl
  | token :: rest => by
      rw [movedTokens_cons]
      have hsame : (token.moved f).lexeme = token.lexeme := rfl
      by_cases hend : token.lexeme = "\x7d"
      · rw [outcome_blockBody_end _ hend, outcome_blockBody_end _ (hsame.trans hend)]
        rfl
      · rw [outcome_blockBody_cons _ hend, outcome_blockBody_cons _ (hsame ▸ hend)]
        refine andThen_moved f (statement_moved (token :: rest)) fun s behind hread => ?_
        have hlt := Reading.length_lt_of_outcome hread
        exact andThen_moved f (blockBody_moved behind) fun _ _ _ => rfl
termination_by tokens => 2 * tokens.length + 1
decreasing_by
  all_goals
    simp only [List.length_cons] at *
    omega

theorem catches_moved : (tokens : List Token) →
    (catches (movedTokens f tokens)).outcome =
      (catches tokens).outcome.moved f (catchesMoved f)
  | [] => by
      rw [movedTokens_nil, outcome_catches_stop rfl]
      rfl
  | token :: rest => by
      have hsame : (token.moved f).lexeme = token.lexeme := rfl
      by_cases hword : token.lexeme = "catch"
      · rw [movedTokens_cons, outcome_catches_cons _ hword,
          outcome_catches_cons _ (hsame.trans hword)]
        refine andThen_moved f (catchHeader_moved f rest) fun header behind hread => ?_
        have hlt := Reading.length_lt_of_outcome hread
        refine andThen_moved f (block_moved behind) fun body tail hread => ?_
        have hshort := Reading.length_lt_of_outcome hread
        exact andThen_moved f (catches_moved tail) fun _ _ _ => rfl
      · have hstop : nextIs "catch" (token :: rest) = false := decide_eq_false hword
        rw [outcome_catches_stop hstop, outcome_catches_stop ((nextIs_moved f _ _).trans hstop)]
        rfl
termination_by tokens => 2 * tokens.length
decreasing_by
  all_goals
    simp only [List.length_cons] at *
    omega

theorem switchBody_moved : (tokens : List Token) →
    (switchBody (movedTokens f tokens)).outcome =
      (switchBody tokens).outcome.moved f (SwitchBody.moved f)
  | [] => by
      rw [movedTokens_nil, outcome_switchBody_nil]
      rfl
  | token :: rest => by
      rw [movedTokens_cons]
      have hsame : (token.moved f).lexeme = token.lexeme := rfl
      by_cases hcase : token.lexeme = "case"
      · rw [outcome_switchBody_case _ hcase, outcome_switchBody_case _ (hsame.trans hcase)]
        refine andThen_moved f (expression_moved f rest) fun value behind hread => ?_
        have hfirst := Reading.length_lt_of_outcome hread
        refine andThen_moved f (expect_moved f ":" behind) fun _ behind hread => ?_
        have hsecond := Reading.length_lt_of_outcome hread
        refine andThen_moved f (caseBody_moved behind) fun body tail hread => ?_
        have hthird := Reading.length_lt_of_outcome hread
        exact andThen_moved f (switchBody_moved tail) fun _ _ _ => rfl
      · by_cases hdefault : token.lexeme = "default"
        · rw [outcome_switchBody_default _ hdefault,
            outcome_switchBody_default _ (hsame.trans hdefault)]
          refine andThen_moved f (expect_moved f ":" rest) fun _ behind hread => ?_
          have hfirst := Reading.length_lt_of_outcome hread
          refine andThen_moved f (caseBody_moved behind) fun body tail hread => ?_
          have hsecond := Reading.length_lt_of_outcome hread
          refine andThen_moved f (switchBody_moved tail) fun more _ _ => ?_
          simp only [Outcome.moved, SwitchBody.moved, partMoved_or]
          rfl
        · by_cases hend : token.lexeme = "\x7d"
          · rw [outcome_switchBody_end _ hend, outcome_switchBody_end _ (hsame.trans hend)]
            rfl
          · rw [outcome_switchBody_other _ hcase hdefault hend,
              outcome_switchBody_other _ (hsame ▸ hcase) (hsame ▸ hdefault) (hsame ▸ hend)]
            exact error_moved f _ _ (token :: rest)
termination_by tokens => 2 * tokens.length
decreasing_by
  all_goals
    simp only [List.length_cons] at *
    omega

theorem caseBody_moved : (tokens : List Token) →
    (caseBody (movedTokens f tokens)).outcome = (caseBody tokens).outcome.moved f (allMoved f)
  | [] => by
      rw [movedTokens_nil, outcome_caseBody_nil]
      rfl
  | token :: rest => by
      rw [movedTokens_cons]
      have hsame : endsCase (token.moved f) = endsCase token := rfl
      by_cases hend : endsCase token = true
      · rw [outcome_caseBody_end _ hend, outcome_caseBody_end _ (hsame.trans hend)]
        rfl
      · rw [outcome_caseBody_cons _ hend, outcome_caseBody_cons _ (hsame ▸ hend)]
        refine andThen_moved f (statement_moved (token :: rest)) fun s behind hread => ?_
        have hlt := Reading.length_lt_of_outcome hread
        exact andThen_moved f (caseBody_moved behind) fun _ _ _ => rfl
termination_by tokens => 2 * tokens.length + 1
decreasing_by
  all_goals
    simp only [List.length_cons] at *
    omega

end

theorem param_moved (tokens : List Token) :
    (param (movedTokens f tokens)).outcome = (param tokens).outcome.moved f (Param.moved f) := by
  rw [outcome_param, outcome_param]
  refine andThen_moved f (typeName_moved f tokens) fun type rest _ => ?_
  exact andThen_moved f (identifier_moved f rest) fun _ _ _ => rfl

theorem params_moved (tokens : List Token) :
    (params (movedTokens f tokens)).outcome =
      (params tokens).outcome.moved f (List.map (Param.moved f)) := by
  rw [outcome_params, outcome_params]
  refine andThen_moved f (param_moved f tokens) fun first rest hread => ?_
  have hlt := Reading.length_lt_of_outcome hread
  rw [nextIs_moved, tail_moved]
  exact ite_moved f (andThen_moved f (params_moved rest.tail) fun _ _ _ => rfl) rfl
termination_by tokens.length
decreasing_by
  rw [List.length_tail]
  omega

theorem paramsUnless_moved (stop : String) (tokens : List Token) :
    (paramsUnless stop (movedTokens f tokens)).outcome =
      (paramsUnless stop tokens).outcome.moved f (List.map (Param.moved f)) := by
  rw [outcome_paramsUnless, outcome_paramsUnless, nextIs_moved]
  exact ite_moved f rfl (params_moved f tokens)

theorem method_moved (mods : List Modifier) (returnType : Option TypeName) (name : Token)
    (tokens : List Token) :
    (method mods returnType (name.moved f) (movedTokens f tokens)).outcome =
      (method mods returnType name tokens).outcome.moved f (Method.moved f) := by
  rw [outcome_method, outcome_method]
  refine andThen_moved f (expect_moved f "(" tokens) fun _ rest _ => ?_
  refine andThen_moved f (paramsUnless_moved f ")" rest) fun params rest _ => ?_
  refine andThen_moved f (expect_moved f ")" rest) fun _ rest _ => ?_
  exact andThen_moved f (block_moved f rest) fun _ _ _ => rfl

theorem constructor_moved (mods : List Modifier) (tokens : List Token) :
    (constructor mods (movedTokens f tokens)).outcome =
      (constructor mods tokens).outcome.moved f (Member.moved f) := by
  rw [outcome_constructor, outcome_constructor]
  refine andThen_moved f (identifier_moved f tokens) fun name rest _ => ?_
  exact andThen_moved f (method_moved f mods none name rest) fun _ _ _ => rfl

theorem typedMember_moved (mods : List Modifier) (tokens : List Token) :
    (typedMember mods (movedTokens f tokens)).outcome =
      (typedMember mods tokens).outcome.moved f (Member.moved f) := by
  rw [outcome_typedMember, outcome_typedMember]
  refine andThen_moved f (typeName_moved f tokens) fun type rest _ => ?_
  refine andThen_moved f (identifier_moved f rest) fun name rest _ => ?_
  rw [nextIs_moved]
  refine ite_moved f (andThen_moved f (method_moved f mods (some type) name rest)
    fun _ _ _ => rfl) ?_
  refine andThen_moved f (declarator_moved f mods type name rest) fun decl rest _ => ?_
  exact andThen_moved f (expect_moved f ";" rest) fun _ _ _ => rfl

theorem beginsConstructor_moved (className : String) (tokens : List Token) :
    beginsConstructor className (movedTokens f tokens) = beginsConstructor className tokens := by
  match tokens with
  | [] => rfl
  | [_] => rfl
  | _ :: _ :: _ => rfl

theorem methodOrField_moved (className : String) (mods : List Modifier) (tokens : List Token) :
    (methodOrField className mods (movedTokens f tokens)).outcome =
      (methodOrField className mods tokens).outcome.moved f (Member.moved f) := by
  rw [outcome_methodOrField, outcome_methodOrField, beginsConstructor_moved]
  exact ite_moved f (constructor_moved f mods tokens) (typedMember_moved f mods tokens)

mutual

theorem classDecl_moved (mods : List Modifier) (tokens : List Token) :
    (classDecl mods (movedTokens f tokens)).outcome =
      (classDecl mods tokens).outcome.moved f (ClassDecl.moved f) := by
  rw [outcome_classDecl, outcome_classDecl]
  refine andThen_moved f (expect_moved f "class" tokens) fun keyword rest hread => ?_
  have hfirst := Reading.length_lt_of_outcome hread
  refine andThen_moved f (identifier_moved f rest) fun name rest hread => ?_
  have hsecond := Reading.length_lt_of_outcome hread
  refine andThen_moved f (expect_moved f "\x7b" rest) fun _ rest hread => ?_
  have hthird := Reading.length_lt_of_outcome hread
  refine andThen_moved f (members_moved name.lexeme rest) fun list _ _ => ?_
  simp only [Outcome.moved, ClassDecl.moved, Token.lexeme_moved, Token.position_moved]
termination_by 3 * tokens.length
decreasing_by all_goals omega

theorem member_moved (className : String) (tokens : List Token) :
    (member className (movedTokens f tokens)).outcome =
      (member className tokens).outcome.moved f (Member.moved f) := by
  obtain ⟨hvalue, hrest⟩ := modifiers_moved f tokens
  have hlt := (modifiers tokens).lt
  rw [outcome_member, outcome_member, hvalue, hrest, nextIs_moved]
  refine ite_moved f (andThen_moved f (classDecl_moved _ (modifiers tokens).rest)
    fun _ _ _ => rfl) ?_
  exact methodOrField_moved f className _ _
termination_by 3 * tokens.length + 1
decreasing_by all_goals omega

theorem members_moved (className : String) : (tokens : List Token) →
    (members className (movedTokens f tokens)).outcome =
      (members className tokens).outcome.moved f (membersMoved f)
  | [] => by
      rw [movedTokens_nil, outcome_members_nil]
      rfl
  | token :: rest => by
      rw [movedTokens_cons]
      have hsame : (token.moved f).lexeme = token.lexeme := rfl
      by_cases hend : token.lexeme = "\x7d"
      · rw [outcome_members_end _ _ hend, outcome_members_end _ _ (hsame.trans hend)]
        simp only [Outcome.moved, membersMoved]
      · by_cases hskip : token.lexeme = ";"
        · rw [outcome_members_skip _ _ hskip, outcome_members_skip _ _ (hsame.trans hskip)]
          exact members_moved className rest
        · rw [outcome_members_cons _ _ hend hskip,
            outcome_members_cons _ _ (hsame ▸ hend) (hsame ▸ hskip)]
          refine andThen_moved f (member_moved className (token :: rest))
            fun first behind hread => ?_
          have hlt := Reading.length_lt_of_outcome hread
          refine andThen_moved f (members_moved className behind) fun more _ _ => ?_
          simp only [Outcome.moved, membersMoved_cons]
termination_by tokens => 3 * tokens.length + 2
decreasing_by
  all_goals
    simp only [List.length_cons] at *
    omega

end

theorem item_moved (tokens : List Token) :
    (item (movedTokens f tokens)).outcome = (item tokens).outcome.moved f (Item.moved f) := by
  obtain ⟨hvalue, hrest⟩ := modifiers_moved f tokens
  rw [outcome_item, outcome_item, hvalue, hrest, nextIs_moved]
  refine ite_moved f (andThen_moved f (classDecl_moved f _ _) fun _ _ _ => rfl) ?_
  exact andThen_moved f (statement_moved f tokens) fun _ _ _ => rfl

def movedResult {α : Type} (g : α → α) : Except SyntaxError α → Except SyntaxError α
  | .ok value => .ok (g value)
  | .error error => .error (error.moved f)

theorem items_moved : (tokens : List Token) →
    items (movedTokens f tokens) = movedResult f (List.map (Item.moved f)) (items tokens)
  | [] => by
      rw [movedTokens_nil, items_nil]
      rfl
  | token :: rest => by
      rw [movedTokens_cons, items_cons, items_cons, ← movedTokens_cons, item_moved]
      cases hread : (item (token :: rest)).outcome with
      | error error => rfl
      | ok read =>
          have hlt := Reading.length_lt_of_outcome hread
          simp only [Outcome.moved]
          rw [items_moved read.2]
          cases items read.2 <;> rfl
termination_by tokens => tokens.length
decreasing_by exact hlt

end MiniJava.Grammar

namespace MiniJava.Program

open Grammar

/-- The program that moved tokens spell is the program that the tokens spell, moved along. -/
theorem ofTokens_moved (f : Position → Position) (tokens : List Token) :
    ofTokens (movedTokens f tokens) = movedResult f (Program.moved f) (ofTokens tokens) := by
  rw [ofTokens, ofTokens, items_moved]
  cases Grammar.items tokens <;> rfl

end MiniJava.Program
