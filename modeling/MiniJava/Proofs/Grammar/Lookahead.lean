import MiniJava.Proofs.Grammar.DeclarationSound

/-!
# How far reading looks

A reader leaves the end of its table, whatever it read, and what it rejects is the token in front
of such an end: it never skips a token and never makes one up, also where it looks ahead and reads
again from an earlier place. No error token of a source text is ever read.

More tokens behind the table change neither what was read in front of some token nor that a token
was rejected. The exception is a table that ends while a reader looks ahead: a name with brackets
behind it may be a type or an operand, and modifiers may belong to a class.
-/

namespace MiniJava.Grammar

open Lexeme

def Known (token : Token) : Prop := token.IsLexical → token.kind ≠ .error

theorem known_of_kind {token : Token} (h : token.kind ≠ .error) : Known token := fun _ => h

theorem known_of_word {token : Token} {text : String} (h : token.lexeme = text)
    (hword : text ∈ words) : Known token := by
  intro hlexical
  obtain ⟨next, hnext, -, herror⟩ := keepsWords_of_word [] hlexical (h ▸ hword)
  cases hnext
  exact herror

def ReadsTo (tokens rest : List Token) : Prop :=
  ∃ read, tokens = read ++ rest ∧ ∀ token ∈ read, Known token

namespace ReadsTo

variable {tokens rest left : List Token}

theorem refl (tokens : List Token) : ReadsTo tokens tokens := ⟨[], rfl, nofun⟩

theorem trans (h : ReadsTo tokens rest) (hrest : ReadsTo rest left) : ReadsTo tokens left := by
  obtain ⟨read, rfl, hread⟩ := h
  obtain ⟨more, rfl, hmore⟩ := hrest
  exact ⟨read ++ more, (List.append_assoc ..).symm, List.forall_mem_append.mpr ⟨hread, hmore⟩⟩

theorem one {token : Token} (h : Known token) (rest : List Token) :
    ReadsTo (token :: rest) rest := ⟨[token], rfl, List.forall_mem_singleton.mpr h⟩

theorem suffix (h : ReadsTo tokens rest) : rest <:+ tokens := by
  obtain ⟨read, rfl, -⟩ := h
  exact List.suffix_append read rest

theorem eq_nil (h : ReadsTo [] rest) : rest = [] := List.suffix_nil.mp h.suffix

end ReadsTo

/-- Reading `tokens` leaves the end of the table, or rejects what stands in front of an end. -/
def Stops {α : Type} (tokens : List Token) : Outcome α → Prop
  | .ok (_, rest) => ReadsTo tokens rest
  | .error error => ∃ expected rest, ReadsTo tokens rest ∧ error = .atNext expected rest

namespace Stops

variable {α β : Type} {tokens rest : List Token}

theorem behind {outcome : Outcome α} (h : Stops rest outcome) (hrest : ReadsTo tokens rest) :
    Stops tokens outcome := by
  cases outcome with
  | ok read => exact hrest.trans h
  | error error =>
      obtain ⟨expected, found, hfound, heq⟩ := h
      exact ⟨expected, found, hrest.trans hfound, heq⟩

theorem andThen {first : Outcome α} {next : α → List Token → Outcome β} (h : Stops tokens first)
    (hnext : ∀ value rest, first = .ok (value, rest) → Stops rest (next value rest)) :
    Stops tokens (first.andThen next) := by
  cases first with
  | error error => exact h
  | ok read => exact (hnext read.1 read.2 rfl).behind h

end Stops

inductive OpenBrackets : List Token → Prop
  | none : OpenBrackets []
  | half {left : Token} : left.lexeme = "[" → OpenBrackets [left]
  | pair {left right : Token} {rest : List Token} : left.lexeme = "[" → right.lexeme = "]" →
      OpenBrackets rest → OpenBrackets (left :: right :: rest)

theorem OpenBrackets.lexeme_mem {brackets : List Token} (h : OpenBrackets brackets) :
    ∀ token ∈ brackets, token.lexeme ∈ ["[", "]"] := by
  induction h with
  | none => nofun
  | half hleft => simp [hleft]
  | pair hleft hright _ ih =>
      exact List.forall_mem_cons.mpr
        ⟨by simp [hleft], List.forall_mem_cons.mpr ⟨by simp [hright], ih⟩⟩

/-- A token and what a reader sees behind it before it knows what the token begins. A modifier that
is a print call as well stands in no source text. -/
inductive Undecided : Token → List Token → Prop
  | type {name : Token} {brackets : List Token} : name.kind = .identifier →
      OpenBrackets brackets → Undecided name brackets
  | modifiers {first : Token} {more : List Token} : first.kind = .printCall →
      (∀ token ∈ first :: more, Modifier.ofWord? token.lexeme ≠ none) → Undecided first more

/-- The error stands in a lookahead that the end of the table cuts off, behind its first token. -/
def Misled (tokens : List Token) (error : SyntaxError) : Prop :=
  ∃ before first seen expected left, tokens = before ++ first :: seen ∧ Undecided first seen ∧
    left <:+ seen ∧ left ≠ [] ∧ error = .atNext expected left

theorem Misled.behind {tokens rest : List Token} {error : SyntaxError} (h : Misled rest error)
    (hrest : ReadsTo tokens rest) : Misled tokens error := by
  obtain ⟨before, first, seen, expected, left, rfl, h⟩ := h
  obtain ⟨read, rfl, -⟩ := hrest
  exact ⟨read ++ before, first, seen, expected, left, (List.append_assoc ..).symm, h⟩

/-- `short` is read from `tokens` and `long` from the same tokens with `back` behind them. What is
read to the end of `tokens` is kept only if it is `closed`. -/
structure Local {α : Type} (closed : Prop) (tokens back : List Token)
    (short long : Outcome α) : Prop where
  stops : Stops tokens short
  kept : ∀ value rest, short = .ok (value, rest) → rest ≠ [] ∨ closed →
    long = .ok (value, rest ++ back)
  rejected : ∀ error, short = .error error → (∃ expected, error = .unexpectedEnd expected) ∨
    (∃ other, long = .error other) ∨ Misled tokens error

namespace Local

variable {α β : Type} {closed inner : Prop} {tokens rest back : List Token}
  {short long : Outcome α}

theorem mono (h : Local closed tokens back short long) (himp : inner → closed) :
    Local inner tokens back short long where
  stops := h.stops
  kept := fun value rest hread hrest => h.kept value rest hread (hrest.imp_right himp)
  rejected := h.rejected

theorem loosen (h : Local True tokens back short long) : Local closed tokens back short long :=
  h.mono fun _ => trivial

/-- What is read behind known tokens. -/
theorem behind (h : Local closed rest back short long) (hrest : ReadsTo tokens rest) :
    Local closed tokens back short long where
  stops := h.stops.behind hrest
  kept := h.kept
  rejected := fun error herror =>
    (h.rejected error herror).imp_right (Or.imp_right fun hmisled => hmisled.behind hrest)

theorem cons {token : Token} (hknown : Known token) (h : Local closed rest back short long) :
    Local closed (token :: rest) back short long := h.behind (.one hknown rest)

theorem value (value : α) (tokens : List Token) :
    Local closed tokens back (.ok (value, tokens)) (.ok (value, tokens ++ back)) where
  stops := ReadsTo.refl tokens
  kept := by
    rintro _ _ ⟨⟩ -
    rfl
  rejected := nofun

/-- A token that both readings reject. -/
theorem refused (expected : Expected) (tokens : List Token) (error : SyntaxError) :
    Local closed tokens back (.error (.atNext expected tokens) : Outcome α) (.error error) where
  stops := ⟨expected, tokens, .refl tokens, rfl⟩
  kept := nofun
  rejected := fun _ _ => .inr (.inl ⟨error, rfl⟩)

/-- The end of the table where something is asked for. -/
theorem ended (expected : Expected) (h : ReadsTo tokens []) :
    Local closed tokens back (.error (.unexpectedEnd expected)) long where
  stops := ⟨expected, [], h, rfl⟩
  kept := nofun
  rejected := fun _ herror => .inl ⟨expected, (Except.error.inj herror).symm⟩

/-- Whoever fails in a lookahead that the table cuts off may be misled. -/
theorem undecided {first : Token} {seen : List Token} (hknown : Known first)
    (hseen : Undecided first seen) {error : SyntaxError}
    (h : Stops seen (.error error : Outcome α)) :
    Local closed (first :: seen) back (.error error) long where
  stops := h.behind (.one hknown seen)
  kept := nofun
  rejected := by
    rintro _ ⟨⟩
    obtain ⟨expected, left, hleft, rfl⟩ := h
    by_cases hend : left = []
    · exact .inl ⟨expected, hend ▸ rfl⟩
    · exact .inr (.inr ⟨[], first, seen, expected, left, rfl, hseen, hleft.suffix, hend, rfl⟩)

/-- Nothing that is read from an empty table is kept. -/
theorem nil (h : Stops [] short) : Local False [] back short long where
  stops := h
  kept := by
    rintro value rest rfl (hrest | hclosed)
    · exact absurd (ReadsTo.eq_nil h) hrest
    · exact hclosed.elim
  rejected := by
    rintro error rfl
    obtain ⟨expected, rest, hrest, rfl⟩ := h
    rw [hrest.eq_nil]
    exact .inl ⟨expected, rfl⟩

/-- An error is the end of a reading, whoever follows. -/
theorem failed {later : Outcome α} {error : SyntaxError} {next : α → List Token → Outcome β}
    (h : Local inner tokens back (.error error) later) :
    Local closed tokens back (.error error) (later.andThen next) where
  stops := h.stops
  kept := nofun
  rejected := by
    rintro _ ⟨⟩
    refine (h.rejected error rfl).imp_right (Or.imp_left ?_)
    rintro ⟨other, rfl⟩
    exact ⟨other, rfl⟩

/-- Readers that follow each other. -/
theorem andThen {first later : Outcome α} {next : α → List Token → Outcome β}
    (h : Local closed tokens back first later)
    (hnext : ∀ value rest, first = .ok (value, rest) →
      Local closed rest back (next value rest) (next value (rest ++ back))) :
    Local closed tokens back (first.andThen next) (later.andThen next) := by
  rcases first with error | ⟨value, rest⟩
  · exact h.failed
  · have hbehind := hnext value rest rfl
    by_cases hkept : rest ≠ [] ∨ closed
    · rw [h.kept value rest rfl hkept]
      exact hbehind.behind h.stops
    -- The longer reading may have gone on behind the end, but then nothing here is kept.
    · obtain ⟨hrest, hopen⟩ := not_or.mp hkept
      obtain rfl := not_not.mp hrest
      exact ((nil hbehind.stops).mono hopen).behind h.stops

/-- A reader behind another one that asks for something at the end of the table. -/
theorem closing {first later : Outcome α} {next : α → List Token → Outcome β}
    (h : Local inner tokens back first later)
    (hnext : ∀ value rest, first = .ok (value, rest) →
      Local closed rest back (next value rest) (next value (rest ++ back)))
    (hend : ∀ value, ∃ expected, next value [] = .error (.unexpectedEnd expected)) :
    Local closed tokens back (first.andThen next) (later.andThen next) := by
  rcases first with error | ⟨value, rest⟩
  · exact h.failed
  · by_cases hrest : rest = []
    · subst hrest
      obtain ⟨expected, hexpected⟩ := hend value
      rw [Outcome.ok_andThen, hexpected]
      exact ended expected h.stops
    · rw [h.kept value rest rfl (.inl hrest)]
      exact (hnext value rest rfl).behind h.stops

/-- The last step of a reader gives a value and reads no more. -/
theorem map {first later : Outcome α} {f : α → β} (h : Local closed tokens back first later) :
    Local closed tokens back (first.andThen fun a rest => .ok (f a, rest))
      (later.andThen fun a rest => .ok (f a, rest)) :=
  h.andThen fun a rest _ => .value (f a) rest

theorem ite {p : Prop} [Decidable p] {yes no longYes longNo : Outcome α}
    (hyes : p → Local closed tokens back yes longYes)
    (hno : ¬ p → Local closed tokens back no longNo) :
    Local closed tokens back (if p then yes else no) (if p then longYes else longNo) := by
  split
  · next h => exact hyes h
  · next h => exact hno h

/-- A part that a word opens, if `back` does not begin with the word wherever this counts. -/
theorem optional {word : String} {yes no longYes longNo : Outcome α}
    (hback : closed → nextIs word back = false)
    (hyes : ∀ token rest, tokens = token :: rest → token.lexeme = word →
      Local closed (token :: rest) back yes longYes)
    (hno : Local closed tokens back no longNo) :
    Local closed tokens back (if nextIs word tokens then yes else no)
      (if nextIs word (tokens ++ back) then longYes else longNo) := by
  cases tokens with
  | nil =>
      by_cases hclosed : closed
      · rw [List.nil_append, hback hclosed]
        exact hno
      · exact (nil hno.stops).mono hclosed
  | cons token rest => exact ite (fun h => hyes token rest rfl (of_decide_eq_true h)) fun _ => hno

end Local

open Local

section Readers

variable (back : List Token)

theorem expect_local {lexeme : String} (hword : lexeme ∈ words) (tokens : List Token) :
    Local True tokens back (expect lexeme tokens).outcome
      (expect lexeme (tokens ++ back)).outcome := by
  cases tokens with
  | nil => exact ended (.lexeme lexeme) (.refl [])
  | cons token rest =>
      rw [outcome_expect_cons, List.cons_append, outcome_expect_cons]
      exact ite (fun h => cons (known_of_word h hword) (value token rest)) fun _ => refused _ _ _

theorem identifier_local (tokens : List Token) :
    Local True tokens back (identifier tokens).outcome (identifier (tokens ++ back)).outcome := by
  cases tokens with
  | nil => exact ended .identifier (.refl [])
  | cons token rest =>
      rw [outcome_identifier_cons, List.cons_append, outcome_identifier_cons]
      exact ite (fun h => cons (known_of_kind (by simp [h])) (value token rest))
        fun _ => refused _ _ _

theorem known_of_unaryOp {token : Token} {op : UnaryOp}
    (h : UnaryOp.ofSymbol? token.lexeme = some op) : Known token :=
  known_of_word (UnaryOp.symbol_of_ofSymbol? h).symm (mem_words_of_symbol (unaryOp_mem_symbols op))

theorem known_of_stepOp {token : Token} {op : StepOp}
    (h : StepOp.ofSymbol? token.lexeme = some op) : Known token :=
  known_of_word (StepOp.symbol_of_ofSymbol? h).symm (mem_words_of_symbol (stepOp_mem_symbols op))

theorem known_of_binaryOp {token : Token} {op : BinaryOp} (h : binaryOp? token = some op) :
    Known token := by
  refine known_of_kind fun hkind => ?_
  simp [binaryOp?, hkind] at h

theorem known_of_atom {token : Token} {e : Expr} (h : atom? token = some e) : Known token := by
  refine known_of_kind fun hkind => ?_
  simp [atom?, hkind] at h

theorem known_of_beginsAssignment {target sign : Token} (h : beginsAssignment target sign = true) :
    Known target ∧ Known sign := by
  simp only [beginsAssignment, Bool.and_eq_true, Bool.or_eq_true, decide_eq_true_eq] at h
  refine ⟨known_of_kind (by simp [h.1]), known_of_kind ?_⟩
  rcases h.2 with hkind | hkind
  · simp [hkind]
  · simp [hkind]

theorem stepBehind_local (operand : Expr) (tokens : List Token) :
    Local False tokens back
      (.ok ((stepBehind operand tokens).value, (stepBehind operand tokens).rest))
      (.ok ((stepBehind operand (tokens ++ back)).value,
        (stepBehind operand (tokens ++ back)).rest)) := by
  cases tokens with
  | nil => exact nil (.refl [])
  | cons token rest =>
      rw [List.cons_append]
      cases hop : StepOp.ofSymbol? token.lexeme with
      | none =>
          rw [stepBehind_other _ _ hop, stepBehind_other _ _ hop]
          exact value operand _
      | some op =>
          cases operand with
          | name target position =>
              rw [stepBehind_step target _ _ hop, stepBehind_step target _ _ hop]
              exact cons (known_of_stepOp hop) (value _ rest)
          | _ => exact value _ (token :: rest)

/-- A name at the front of a unary expression is read. -/
theorem unary_behind_name {name : Token} (h : name.kind = .identifier) {rest : List Token}
    (hrest : Stops rest (unary rest).outcome) : Stops rest (unary (name :: rest)).outcome := by
  cases hunary : UnaryOp.ofSymbol? name.lexeme with
  | some op =>
      rw [outcome_unary_sign _ hunary]
      exact hrest.andThen fun _ left _ => ReadsTo.refl left
  | none =>
      cases hstep : StepOp.ofSymbol? name.lexeme with
      | some op =>
          rw [outcome_unary_step _ hunary hstep]
          exact (identifier_local [] rest).stops.andThen fun _ left _ => ReadsTo.refl left
      | none =>
          have hatom : atom? name = some (.name name.lexeme name.position) := by simp [atom?, h]
          rw [outcome_unary_operand _ hunary hstep, outcome_primary_atom _ hatom]
          exact (stepBehind_local [] _ rest).stops

theorem binary_behind_name {name : Token} (h : name.kind = .identifier) {rest : List Token}
    (hrest : Stops rest (unary rest).outcome)
    (hclimb : ∀ lhs left, left.length ≤ rest.length → Stops left (climb 1 lhs left).outcome) :
    Stops rest (binary 1 (name :: rest)).outcome := by
  rw [outcome_binary]
  refine (unary_behind_name h hrest).andThen fun lhs left hread => hclimb lhs left ?_
  exact Nat.le_of_lt_succ (Reading.length_lt_of_outcome hread)

theorem expression_plain_or_name (token : Token) (rest : List Token) :
    (expression (token :: rest)).outcome = (binary 1 (token :: rest)).outcome ∨
      token.kind = .identifier := by
  cases rest with
  | nil => exact .inl (outcome_expression_singleton token)
  | cons sign rest =>
      cases h : beginsAssignment token sign with
      | true =>
          simp only [beginsAssignment, Bool.and_eq_true, decide_eq_true_eq] at h
          exact .inr h.1
      | false => exact .inl (outcome_expression_binary rest h)

mutual

theorem expression_local : (tokens : List Token) →
    Local False tokens back (expression tokens).outcome (expression (tokens ++ back)).outcome
  | [] => by
      rw [outcome_expression_nil]
      exact nil (binary_local 1 []).stops
  | [token] => by
      rw [outcome_expression_singleton]
      -- With a sign in `back` a name begins an assignment that the shorter table does not show.
      rcases expression_plain_or_name token back with hplain | hname
      · rw [List.singleton_append, hplain]
        exact binary_local 1 [token]
      · refine cons (known_of_kind (by simp [hname])) (nil ?_)
        exact binary_behind_name hname (unary_local []).stops fun lhs left _ =>
          (climb_local 1 lhs left).stops
  | target :: sign :: rest => by
      rw [List.cons_append, List.cons_append]
      cases h : beginsAssignment target sign with
      | true =>
          obtain ⟨htarget, hsign⟩ := known_of_beginsAssignment h
          rw [outcome_expression_assign _ h, outcome_expression_assign _ h]
          exact cons htarget (cons hsign (map (expression_local rest)))
      | false =>
          rw [outcome_expression_binary _ h, outcome_expression_binary _ h]
          exact binary_local 1 (target :: sign :: rest)
termination_by tokens => 5 * tokens.length + 4
decreasing_by
  all_goals
    simp only [List.length_cons, List.length_nil] at *
    omega

theorem binary_local (least : Nat) (tokens : List Token) :
    Local False tokens back (binary least tokens).outcome
      (binary least (tokens ++ back)).outcome := by
  rw [outcome_binary, outcome_binary]
  refine andThen (unary_local tokens) fun lhs rest hread => ?_
  have hlt := Reading.length_lt_of_outcome hread
  exact climb_local least lhs rest
termination_by 5 * tokens.length + 3
decreasing_by all_goals omega

theorem climb_local (least : Nat) (lhs : Expr) : (tokens : List Token) →
    Local False tokens back (climb least lhs tokens).outcome
      (climb least lhs (tokens ++ back)).outcome
  | [] => by
      rw [outcome_climb_nil]
      exact nil (.refl [])
  | token :: rest => by
      rw [List.cons_append]
      by_cases hstop : ∀ op ∈ binaryOp? token, op.precedence < least
      · rw [outcome_climb_stop _ _ hstop, outcome_climb_stop _ _ hstop]
        exact value lhs (token :: rest)
      · obtain ⟨op, hop, hle⟩ : ∃ op, binaryOp? token = some op ∧ least ≤ op.precedence := by
          simpa using hstop
        rw [outcome_climb_go _ _ hop hle, outcome_climb_go _ _ hop hle]
        refine cons (known_of_binaryOp hop)
          (andThen (binary_local _ rest) fun rhs behind hread => ?_)
        have hlt := Reading.length_lt_of_outcome hread
        exact climb_local least (.binary op lhs rhs) behind
termination_by tokens => 5 * tokens.length
decreasing_by
  all_goals
    simp only [List.length_cons] at *
    omega

theorem unary_local : (tokens : List Token) →
    Local False tokens back (unary tokens).outcome (unary (tokens ++ back)).outcome
  | [] => by
      rw [outcome_unary_nil]
      exact nil (primary_local []).stops
  | token :: rest => by
      rw [List.cons_append]
      cases hunary : UnaryOp.ofSymbol? token.lexeme with
      | some op =>
          rw [outcome_unary_sign _ hunary, outcome_unary_sign _ hunary]
          exact cons (known_of_unaryOp hunary) (map (unary_local rest))
      | none =>
          cases hstep : StepOp.ofSymbol? token.lexeme with
          | some op =>
              rw [outcome_unary_step _ hunary hstep, outcome_unary_step _ hunary hstep]
              exact cons (known_of_stepOp hstep) (map (identifier_local back rest).loosen)
          | none =>
              rw [outcome_unary_operand _ hunary hstep, outcome_unary_operand _ hunary hstep]
              exact andThen (primary_local (token :: rest)) fun operand behind _ =>
                stepBehind_local back operand behind
termination_by tokens => 5 * tokens.length + 2
decreasing_by
  all_goals
    simp only [List.length_cons, List.length_nil] at *
    omega

theorem primary_local : (tokens : List Token) →
    Local False tokens back (primary tokens).outcome (primary (tokens ++ back)).outcome
  | [] => by
      rw [outcome_primary_nil]
      exact ended .expression (.refl [])
  | token :: rest => by
      rw [List.cons_append]
      cases hatom : atom? token with
      | some e =>
          rw [outcome_primary_atom _ hatom, outcome_primary_atom _ hatom]
          exact cons (known_of_atom hatom) (value e rest)
      | none =>
          by_cases hopening : token.lexeme = "("
          · rw [outcome_primary_group _ hatom hopening, outcome_primary_group _ hatom hopening]
            refine cons (known_of_word hopening (by decide)) ?_
            refine andThen (expression_local rest) fun e behind _ => ?_
            exact map (expect_local back (by decide) behind).loosen
          · rw [outcome_primary_other _ hatom hopening, outcome_primary_other _ hatom hopening]
            exact refused _ (token :: rest) _
termination_by tokens => 5 * tokens.length + 1
decreasing_by
  all_goals
    simp only [List.length_cons] at *
    omega

end

theorem parenthesized_local (tokens : List Token) :
    Local True tokens back (parenthesized tokens).outcome
      (parenthesized (tokens ++ back)).outcome := by
  rw [outcome_parenthesized, outcome_parenthesized]
  refine andThen (expect_local back (by decide) tokens) fun _ rest _ => ?_
  refine closing (expression_local back rest) (fun e rest _ => ?_) fun _ => ⟨_, rfl⟩
  exact map (expect_local back (by decide) rest)

theorem expressions_local (tokens : List Token) :
    Local False tokens back (expressions tokens).outcome
      (expressions (tokens ++ back)).outcome := by
  rw [outcome_expressions, outcome_expressions]
  refine andThen (expression_local back tokens) fun e rest hread => ?_
  have hlt := Reading.length_lt_of_outcome hread
  refine optional False.elim (fun comma more hrest hcomma => ?_) (value [e] rest)
  subst hrest
  exact cons (known_of_word hcomma (by decide)) (map (expressions_local more))
termination_by tokens.length
decreasing_by
  rw [List.length_cons] at hlt
  omega

theorem expressionUnless_local (stop : String) (tokens : List Token) :
    Local False tokens back (expressionUnless stop tokens).outcome
      (expressionUnless stop (tokens ++ back)).outcome := by
  have hexpression := map (f := some) (expression_local back tokens)
  rw [outcome_expressionUnless, outcome_expressionUnless]
  cases tokens with
  | nil => exact nil hexpression.stops
  | cons token rest => exact ite (fun _ => value none (token :: rest)) fun _ => hexpression

theorem expressionsUnless_local (stop : String) (tokens : List Token) :
    Local False tokens back (expressionsUnless stop tokens).outcome
      (expressionsUnless stop (tokens ++ back)).outcome := by
  have hexpressions := expressions_local back tokens
  rw [outcome_expressionsUnless, outcome_expressionsUnless]
  cases tokens with
  | nil => exact nil hexpressions.stops
  | cons token rest => exact ite (fun _ => value [] (token :: rest)) fun _ => hexpressions

theorem readsTo_modifiers (tokens : List Token) : ReadsTo tokens (modifiers tokens).rest := by
  induction tokens with
  | nil => exact .refl []
  | cons token rest ih =>
      rw [modifiers]
      cases hword : Modifier.ofWord? token.lexeme with
      | none => exact .refl (token :: rest)
      | some modifier =>
          have hmem : modifier.word ∈ words := by cases modifier <;> decide
          have hknown := known_of_word (Modifier.word_of_ofWord? hword).symm hmem
          exact (ReadsTo.one hknown rest).trans ih

/-- Modifiers in front of another token stay as they are. -/
theorem modifiers_append {tokens : List Token} (h : (modifiers tokens).rest ≠ []) :
    (modifiers (tokens ++ back)).value = (modifiers tokens).value ∧
      (modifiers (tokens ++ back)).rest = (modifiers tokens).rest ++ back := by
  induction tokens with
  | nil => exact absurd rfl h
  | cons token rest ih =>
      rw [List.cons_append, modifiers, modifiers] at *
      cases hword : Modifier.ofWord? token.lexeme with
      | none => exact ⟨rfl, rfl⟩
      | some modifier =>
          rw [hword] at h
          obtain ⟨hvalue, hrest⟩ := ih h
          exact ⟨congrArg (modifier :: ·) hvalue, hrest⟩

theorem dimensions_local : (tokens : List Token) →
    Local False tokens back (dimensions tokens).outcome (dimensions (tokens ++ back)).outcome
  | [] => nil (.refl [])
  | [token] => by
      by_cases hleft : token.lexeme = "["
      · have hshort : (dimensions [token]).outcome = .error (.unexpectedEnd (.lexeme "]")) := by
          rw [dimensions, if_pos hleft]
          rfl
        rw [hshort]
        exact ended _ (.one (known_of_word hleft (by decide)) [])
      · have hstop (more : List Token) : nextIs "[" (token :: more) = false :=
          decide_eq_false hleft
        rw [List.singleton_append, outcome_dimensions_stop (hstop []),
          outcome_dimensions_stop (hstop back)]
        exact value 0 [token]
  | left :: right :: rest => by
      rw [List.cons_append, List.cons_append]
      by_cases hleft : left.lexeme = "["
      · have hknown := known_of_word hleft (by decide)
        by_cases hright : right.lexeme = "]"
        · rw [outcome_dimensions_pair _ hleft hright, outcome_dimensions_pair _ hleft hright]
          exact cons hknown (cons (known_of_word hright (by decide)) (map (dimensions_local rest)))
        · rw [dimensions, if_pos hleft, if_neg hright, dimensions, if_pos hleft, if_neg hright]
          exact cons hknown (refused _ (right :: rest) _)
      · have hstop (more : List Token) : nextIs "[" (left :: more) = false :=
          decide_eq_false hleft
        rw [outcome_dimensions_stop (hstop _), outcome_dimensions_stop (hstop _)]
        exact value 0 (left :: right :: rest)

theorem known_of_namesType {token : Token} (h : namesType token = true) : Known token := by
  simp only [namesType, Bool.or_eq_true, decide_eq_true_eq, or_assoc] at h
  rcases h with h | h | h
  · exact known_of_kind (by simp [h])
  · exact known_of_kind (by simp [h])
  · exact known_of_word h (by decide)

theorem typeName_local (tokens : List Token) :
    Local False tokens back (typeName tokens).outcome (typeName (tokens ++ back)).outcome := by
  cases tokens with
  | nil => exact ended .type (.refl [])
  | cons token rest =>
      rw [List.cons_append]
      by_cases hnames : namesType token = true
      · rw [outcome_typeName _ hnames, outcome_typeName _ hnames]
        exact cons (known_of_namesType hnames) (map (dimensions_local back rest))
      · rw [typeName, if_neg hnames, typeName, if_neg hnames]
        exact refused _ (token :: rest) _

theorem initializer_local (tokens : List Token) :
    Local False tokens back (initializer tokens).outcome
      (initializer (tokens ++ back)).outcome := by
  cases tokens with
  | nil => exact nil (.refl [])
  | cons token rest =>
      rw [List.cons_append]
      by_cases hsign : token.lexeme = "="
      · rw [outcome_initializer_some _ hsign, outcome_initializer_some _ hsign]
        exact cons (known_of_word hsign (by decide)) (map (expression_local back rest))
      · have hstop (more : List Token) : nextIs "=" (token :: more) = false :=
          decide_eq_false hsign
        rw [outcome_initializer_none (hstop rest), outcome_initializer_none (hstop (rest ++ back))]
        exact value none (token :: rest)

theorem declarator_local (mods : List Modifier) (type : TypeName) (name : Token)
    (tokens : List Token) :
    Local False tokens back (declarator mods type name tokens).outcome
      (declarator mods type name (tokens ++ back)).outcome := by
  rw [outcome_declarator, outcome_declarator]
  exact map (initializer_local back tokens)

theorem localVariable_local (mods : List Modifier) (tokens : List Token) :
    Local False tokens back (localVariable mods tokens).outcome
      (localVariable mods (tokens ++ back)).outcome := by
  rw [outcome_localVariable, outcome_localVariable]
  refine andThen (typeName_local back tokens) fun type rest _ => ?_
  refine andThen (identifier_local back rest).loosen fun name rest _ => ?_
  exact declarator_local back mods type name rest

theorem declaration_local (tokens : List Token) :
    Local False tokens back (declaration tokens).outcome
      (declaration (tokens ++ back)).outcome := by
  rw [outcome_declaration, outcome_declaration]
  refine Local.behind ?_ (readsTo_modifiers tokens)
  by_cases hrest : (modifiers tokens).rest = []
  · rw [hrest]
    exact nil (map (localVariable_local [] _ [])).stops
  · obtain ⟨hvalue, hmore⟩ := modifiers_append back hrest
    rw [hvalue, hmore]
    exact map (localVariable_local back _ _)

theorem expressionStatement_local (tokens : List Token) :
    Local False tokens back (expressionStatement tokens).outcome
      (expressionStatement (tokens ++ back)).outcome := by
  rw [outcome_expressionStatement, outcome_expressionStatement]
  exact map (expression_local back tokens)

theorem expression_behind_name {name : Token} (h : name.kind = .identifier) (rest : List Token) :
    Stops rest (expression (name :: rest)).outcome := by
  have hbinary : Stops rest (binary 1 (name :: rest)).outcome :=
    binary_behind_name h (unary_local [] rest).stops fun lhs left _ =>
      (climb_local [] 1 lhs left).stops
  cases rest with
  | nil => rwa [outcome_expression_singleton]
  | cons sign rest =>
      cases hbegins : beginsAssignment name sign with
      | true =>
          rw [outcome_expression_assign rest hbegins]
          exact (cons (known_of_beginsAssignment hbegins).2 (map (expression_local [] rest))).stops
      | false => rwa [outcome_expression_binary rest hbegins]

theorem declaration_behind_name {name : Token} (h : name.kind = .identifier) (rest : List Token) :
    Stops rest (declaration (name :: rest)).outcome := by
  rw [outcome_declaration, modifiers]
  cases Modifier.ofWord? name.lexeme with
  | some modifier =>
      exact (map (localVariable_local [] _ (modifiers rest).rest)).stops.behind
        (readsTo_modifiers rest)
  | none =>
      have hnames : namesType name = true := by simp [namesType, h]
      have htype : Stops rest (typeName (name :: rest)).outcome := by
        rw [outcome_typeName rest hnames]
        exact (map (dimensions_local [] rest)).stops
      refine Stops.andThen ?_ fun decl left _ => ReadsTo.refl left
      change Stops rest (localVariable [] (name :: rest)).outcome
      rw [outcome_localVariable]
      refine htype.andThen fun type left _ => ?_
      exact (andThen (identifier_local [] left).loosen fun other left _ =>
        declarator_local [] [] type other left).stops

/-- Brackets go on with no other mark. -/
theorem expect_brackets {brackets left : List Token} {lexeme : String}
    (h : OpenBrackets brackets) (hleft : left <:+ brackets) (hlexeme : lexeme ∉ ["[", "]"]) :
    (expect lexeme left).outcome = .error (.atNext (.lexeme lexeme) left) := by
  cases left with
  | nil => rfl
  | cons token left =>
      have hmem := h.lexeme_mem token (hleft.subset List.mem_cons_self)
      rw [outcome_expect_cons, if_neg fun heq : token.lexeme = lexeme => hlexeme (heq ▸ hmem)]

/-- A semicolon is missing behind whatever is read up to a bracket. -/
theorem semicolon_behind_brackets {α β : Type} {brackets : List Token}
    (hopen : OpenBrackets brackets) {first : Outcome α} (h : Stops brackets first)
    (next : α → Token → List Token → Outcome β) :
    ∃ error, (first.andThen fun a rest => (expect ";" rest).outcome.andThen (next a)) =
      .error error ∧ Stops brackets (.error error : Outcome β) := by
  rcases first with error | ⟨a, left⟩
  · exact ⟨error, rfl, h⟩
  · have hleft : ReadsTo brackets left := h
    rw [Outcome.ok_andThen, expect_brackets hopen hleft.suffix (by decide)]
    exact ⟨_, rfl, .lexeme ";", left, hleft, rfl⟩

def EndsInType (tokens : List Token) : Prop :=
  ∃ name brackets, tokens = name :: brackets ∧ name.kind = .identifier ∧ OpenBrackets brackets

theorem nameFollows_append : (tokens : List Token) →
    nameFollows (tokens ++ back) = nameFollows tokens ∨ OpenBrackets tokens
  | [] => .inr .none
  | [token] => by
      by_cases hleft : token.lexeme = "["
      · exact .inr (.half hleft)
      · refine .inl ?_
        cases back <;> simp [nameFollows, hleft]
  | first :: second :: rest => by
      rw [List.cons_append, List.cons_append, nameFollows, nameFollows]
      by_cases hpair : (decide (first.lexeme = "[") && decide (second.lexeme = "]")) = true
      · rw [if_pos hpair, if_pos hpair]
        simp only [Bool.and_eq_true, decide_eq_true_eq] at hpair
        exact (nameFollows_append rest).imp_right (.pair hpair.1 hpair.2)
      · rw [if_neg hpair, if_neg hpair]
        exact .inl rfl

theorem beginsDeclaration_append (token : Token) (rest : List Token) :
    beginsDeclaration (token :: (rest ++ back)) = beginsDeclaration (token :: rest) ∨
      EndsInType (token :: rest) := by
  rcases nameFollows_append back rest with hsame | hopen
  · exact .inl (by rw [beginsDeclaration, hsame, beginsDeclaration])
  · by_cases hkind : token.kind = .identifier
    · exact .inr ⟨token, rest, rfl, hkind, hopen⟩
    · exact .inl (by simp [beginsDeclaration, hkind])

/-- A declaration or an expression with its semicolon, if both readings choose alike or the table
ends before the choice. -/
theorem simple_local {closed : Prop} {α : Type} {tokens : List Token} {short long : Bool}
    (hchoice : long = short ∨ EndsInType tokens) {next : Stmt → List Token → Outcome α}
    (hnext : ∀ s rest, Local closed rest back (next s rest) (next s (rest ++ back))) :
    Local closed tokens back
      ((if short then (declaration tokens).outcome
        else (expressionStatement tokens).outcome).andThen fun s rest =>
          (expect ";" rest).outcome.andThen fun _ rest => next s rest)
      ((if long then (declaration (tokens ++ back)).outcome
        else (expressionStatement (tokens ++ back)).outcome).andThen fun s rest =>
          (expect ";" rest).outcome.andThen fun _ rest => next s rest) := by
  rcases hchoice with rfl | ⟨name, brackets, rfl, hkind, hopen⟩
  · refine closing (ite (fun _ => declaration_local back tokens)
      fun _ => expressionStatement_local back tokens) (fun s rest _ => ?_) fun _ => ⟨_, rfl⟩
    exact andThen (expect_local back (by decide) rest).loosen fun _ rest _ => hnext s rest
  -- Read as either, the name is passed, and no semicolon stands in the brackets.
  · have hstops : Stops brackets (if short then (declaration (name :: brackets)).outcome
        else (expressionStatement (name :: brackets)).outcome) := by
      split
      · exact declaration_behind_name hkind brackets
      · rw [outcome_expressionStatement]
        exact (expression_behind_name hkind brackets).andThen fun _ left _ => ReadsTo.refl left
    obtain ⟨error, heq, herror⟩ :=
      semicolon_behind_brackets hopen hstops fun s _ rest => next s rest
    rw [heq]
    exact undecided (known_of_kind (by simp [hkind])) (.type hkind hopen) herror

end Readers

end MiniJava.Grammar
