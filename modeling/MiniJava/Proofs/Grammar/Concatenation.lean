import MiniJava.Proofs.Grammar.DeclarationComplete
import MiniJava.Proofs.Grammar.Locality
import MiniJava.Proofs.Grammar.ProgramSound

/-!
# Tables put together and cut

Two programs behind each other are one program, as long as the words that go on with a statement
are keywords: nothing begins with them, so the second program does not. The front of a program is
a program or misses its end, unless the table is cut where the reader looks ahead: a declaration
that is cut in the brackets of its type is taken for an expression.
-/

namespace MiniJava

namespace Grammar

theorem outcome_item_plain {token : Token} (rest : List Token)
    (hmodifier : Modifier.ofWord? token.lexeme = none) (hclass : token.lexeme ≠ "class") :
    (item (token :: rest)).outcome =
      (statement (token :: rest)).outcome.andThen fun s rest => .ok (.statement s, rest) := by
  have hrest : (modifiers (token :: rest)).rest = token :: rest := by
    rw [modifiers, hmodifier]
    rfl
  have hnext : ¬ nextIs "class" (token :: rest) = true := fun h => hclass (of_decide_eq_true h)
  rw [outcome_item, hrest, if_neg hnext]

/-- Every word that goes on with a statement is of its keyword kind. -/
def KeepsContinuations (tokens : List Token) : Prop :=
  ∀ token ∈ tokens, token.lexeme ∈ continuations →
    Lexeme.keywords.lookup token.lexeme = some token.kind

structure IsContinuation (token : Token) : Prop where
  word : token.lexeme ∈ continuations
  kind : token.kind = .conditional ∨ token.kind = .exception

namespace IsContinuation

variable {token : Token}

theorem of_lookup (hword : token.lexeme ∈ continuations)
    (hkind : Lexeme.keywords.lookup token.lexeme = some token.kind) : IsContinuation token where
  word := hword
  kind := by
    have hkinds : ∀ word ∈ continuations,
        Lexeme.keywords.lookup word ∈ [some .conditional, some .exception] := by decide
    simpa [hkind] using hkinds _ hword

theorem ofWord?_eq (h : IsContinuation token) : Modifier.ofWord? token.lexeme = none := by
  have hall : ∀ word ∈ continuations, Modifier.ofWord? word = none := by decide
  exact hall _ h.word

theorem expression_eq (h : IsContinuation token) (rest : List Token) :
    (expression (token :: rest)).outcome = .error (.atNext .expression (token :: rest)) := by
  have hunary : ∀ word ∈ continuations, UnaryOp.ofSymbol? word = none := by decide
  have hstep : ∀ word ∈ continuations, StepOp.ofSymbol? word = none := by decide
  have hopening : token.lexeme ≠ "(" := by
    intro heq
    exact absurd (heq ▸ h.word) (by decide)
  have hatom : atom? token = none := by rcases h.kind with hkind | hkind <;> simp [atom?, hkind]
  rcases expression_plain_or_name token rest with hplain | hname
  · rw [hplain, outcome_binary, outcome_unary_operand _ (hunary _ h.word) (hstep _ h.word),
      outcome_primary_other _ hatom hopening]
    rfl
  · rcases h.kind with hkind | hkind <;> cases hkind.symm.trans hname

theorem statement_eq (h : IsContinuation token) (rest : List Token) :
    (statement (token :: rest)).outcome = .error (.atNext .expression (token :: rest)) := by
  have hother : ∀ word ∈ continuations, word ∉ statementLexemes := by decide
  have hprint : token.kind ≠ .printCall := by rcases h.kind with hkind | hkind <;> simp [hkind]
  have hbegins : beginsDeclaration (token :: rest) = false := by
    rcases h.kind with hkind | hkind <;> simp [beginsDeclaration, hkind]
  rw [outcome_statement_other _ (hother _ h.word), if_neg hprint, outcome_declarationOrExpression,
    modifiers_isEmpty, h.ofWord?_eq, hbegins, outcome_expressionStatement, h.expression_eq]
  rfl

theorem item_eq (h : IsContinuation token) (rest : List Token) :
    (item (token :: rest)).outcome = .error (.atNext .expression (token :: rest)) := by
  have hclass : token.lexeme ≠ "class" := by
    intro heq
    exact absurd (heq ▸ h.word) (by decide)
  rw [outcome_item_plain rest h.ofWord?_eq hclass, h.statement_eq]
  rfl

end IsContinuation

theorem fresh_of_items {tokens : List Token} {list : List Item} (h : items tokens = .ok list)
    (hkinds : KeepsContinuations tokens) : Fresh tokens := by
  intro word hword
  cases tokens with
  | nil => rfl
  | cons token rest =>
      refine decide_eq_false fun heq : token.lexeme = word => ?_
      subst heq
      have hcontinues := IsContinuation.of_lookup hword (hkinds token List.mem_cons_self hword)
      have hread := items_of_rejected (List.cons_ne_nil _ _) (hcontinues.item_eq rest)
      cases hread.symm.trans h

theorem kind_of_left {token : Token} (h : token.IsLexical) (hleft : token.lexeme = "[") :
    token.kind = .openBracket := h.kind_of_symbol (hleft ▸ by decide)

theorem nameFollows_of_open {brackets : List Token} (h : OpenBrackets brackets)
    (hlexical : ∀ token ∈ brackets, token.IsLexical) : nameFollows brackets = false := by
  induction h with
  | none => rfl
  | @half left hleft =>
      have hkind := kind_of_left (hlexical left List.mem_cons_self) hleft
      simp [nameFollows, hkind]
  | pair hleft hright _ ih =>
      rw [nameFollows, if_pos (by simp [hleft, hright])]
      exact ih fun token hmem =>
        hlexical token (List.mem_cons_of_mem _ (List.mem_cons_of_mem _ hmem))

theorem IsName.spellsExpr {name : Token} (h : IsName name) :
    SpellsExpr (.name name.lexeme name.position) [name] where
  derives := .loosest ((Derives.tightest (.operand (.atom (.name h.kind)))).loosen (by decide))
  regular := List.forall_mem_singleton.mpr h.regular

/-- A declaration that ends in the brackets of its type is read as the name of the type. -/
theorem statement_cut {name left : Token} {rest : List Token} (hname : IsName name)
    (hleft : left.lexeme = "[") (hopen : OpenBrackets (left :: rest))
    (hlexical : ∀ token ∈ left :: rest, token.IsLexical) :
    (statement (name :: left :: rest)).outcome =
      .error (.atNext (.lexeme ";") (left :: rest)) := by
  have hopens := hname.not_mem_openers
  have hother : name.lexeme ∉ statementLexemes :=
    fun hmem => hopens (List.mem_append_left _ (List.mem_append_left _ hmem))
  have hprint : name.kind ≠ .printCall := by simp [hname.kind]
  have hbegins : beginsDeclaration (name :: left :: rest) = false := by
    simp [beginsDeclaration, hname.kind, nameFollows_of_open hopen hlexical]
  have hends : EndsExpression (left :: rest) := by
    intro next hnext
    cases hnext
    have hlex := hlexical left List.mem_cons_self
    exact ⟨hlex, by rw [kind_of_left hlex hleft]; rfl⟩
  have hread : (expression (name :: left :: rest)).outcome =
      .ok (.name name.lexeme name.position, left :: rest) := hname.spellsExpr.read hends
  have hsemicolon : (expect ";" (left :: rest)).outcome =
      .error (.atNext (.lexeme ";") (left :: rest)) :=
    expect_brackets hopen List.suffix_rfl (by decide)
  rw [outcome_statement_other _ hother, if_neg hprint, outcome_declarationOrExpression,
    modifiers_isEmpty, ofWord?_of_not_mem hopens, hbegins, outcome_expressionStatement, hread]
  change (expect ";" (left :: rest)).outcome.andThen _ = _
  rw [hsemicolon]
  rfl

end Grammar

namespace Program

open Grammar

/-- The programs of two tables behind each other are one program with the items of both. -/
theorem ofTokens_append {first second : List Token} {program next : Program}
    (hfirst : ofTokens first = .ok program) (hsecond : ofTokens second = .ok next)
    (hkinds : KeepsContinuations second) :
    ofTokens (first ++ second) = .ok ⟨program.items ++ next.items⟩ := by
  rw [ofTokens_eq_ok] at *
  rw [items_append second (fresh_of_items hsecond hkinds) hfirst, hsecond]
  rfl

/-- A branch without an `else` stays so in front of one that has an `else`. -/
theorem ofTokens_append_branches :
    ∃ program next, ofTokens (tokenize "if (a) b = 1;") = .ok program ∧
      ofTokens (tokenize "if (c) d = 2; else d = 3;") = .ok next ∧
      KeepsContinuations (tokenize "if (c) d = 2; else d = 3;") ∧
      ofTokens (tokenize "if (a) b = 1;" ++ tokenize "if (c) d = 2; else d = 3;") =
        .ok ⟨program.items ++ next.items⟩ := by
  obtain ⟨program, hprogram, -⟩ :=
    exists_program "if (a) b = 1;" (fun _ => True) (by decide +kernel)
  obtain ⟨next, hnext, -⟩ :=
    exists_program "if (c) d = 2; else d = 3;" (fun _ => True) (by decide +kernel)
  have hkinds : KeepsContinuations (tokenize "if (c) d = 2; else d = 3;") := by
    unfold KeepsContinuations
    decide +kernel
  exact ⟨program, next, hprogram, hnext, hkinds, ofTokens_append hprogram hnext hkinds⟩

/-- The front of a program is a program or misses its end, unless a lookahead is cut. -/
theorem ofTokens_front {front back : List Token} {program : Program}
    (h : ofTokens (front ++ back) = .ok program) :
    (∃ read, ofTokens front = .ok read) ∨
      (∃ expected, ofTokens front = .error (.unexpectedEnd expected)) ∨
      ∃ error, ofTokens front = .error error ∧ Misled front error := by
  cases hread : ofTokens front with
  | ok read => exact .inl ⟨read, rfl⟩
  | error error =>
      rw [ofTokens_eq_ok] at h
      rw [ofTokens_eq_error] at hread
      rcases items_front back hread with ⟨expected, rfl⟩ | ⟨other, hother⟩ | hmisled
      · exact .inr (.inl ⟨expected, rfl⟩)
      · cases hother.symm.trans h
      · exact .inr (.inr ⟨error, rfl, hmisled⟩)

/-- A block that is not closed ends early. -/
theorem ofTokens_front_block :
    ∃ back program, tokenize "while (a) \x7b b++;" ++ back = tokenize "while (a) \x7b b++; \x7d" ∧
      ofTokens (tokenize "while (a) \x7b b++;" ++ back) = .ok program ∧
      ((∃ read, ofTokens (tokenize "while (a) \x7b b++;") = .ok read) ∨
        (∃ expected, ofTokens (tokenize "while (a) \x7b b++;") =
          .error (.unexpectedEnd expected)) ∨
        ∃ error, ofTokens (tokenize "while (a) \x7b b++;") = .error error ∧
          Misled (tokenize "while (a) \x7b b++;") error) := by
  obtain ⟨back, hback⟩ :
      tokenize "while (a) \x7b b++;" <+: tokenize "while (a) \x7b b++; \x7d" := by decide +kernel
  obtain ⟨program, hprogram, -⟩ :=
    exists_program "while (a) \x7b b++; \x7d" (fun _ => True) (by decide +kernel)
  rw [ofSource, ← hback] at hprogram
  exact ⟨back, program, hback, hprogram, ofTokens_front hprogram⟩

/-- A loose declaration that ends in the brackets of its type is rejected at the first of them. -/
theorem ofTokens_cut {before rest : List Token} {name left : Token} {program : Program}
    (hbefore : ofTokens before = .ok program) (hname : IsName name) (hleft : left.lexeme = "[")
    (hopen : OpenBrackets (left :: rest)) (hlexical : ∀ token ∈ left :: rest, token.IsLexical) :
    ofTokens (before ++ name :: left :: rest) =
      .error (.unexpectedToken (.lexeme ";") "[" left.position) := by
  have hopens := hname.not_mem_openers
  have hfresh : Fresh (name :: left :: rest) := by
    have hall : ∀ word ∈ continuations, word ∈ openers := by decide
    exact fun word hword => nextIs_eq_false _ hopens (hall word hword)
  have hclass : name.lexeme ≠ "class" := fun heq => hopens (heq ▸ by decide)
  have hitem : (item (name :: left :: rest)).outcome =
      .error (.atNext (.lexeme ";") (left :: rest)) := by
    rw [outcome_item_plain _ (ofWord?_of_not_mem hopens) hclass,
      statement_cut hname hleft hopen hlexical]
    rfl
  have hkind : left.kind ≠ .error := by
    rw [kind_of_left (hlexical left List.mem_cons_self) hleft]
    decide
  rw [ofTokens_eq_ok] at hbefore
  rw [ofTokens_eq_error, items_append _ hfresh hbefore,
    items_of_rejected (List.cons_ne_nil _ _) hitem, SyntaxError.atNext, if_neg hkind, hleft]
  rfl

/-- A declaration that is cut behind its type is no program, though the whole of it is one, and the
error is not that it ends early. -/
theorem ofTokens_front_type :
    tokenize "A[]" <+: tokenize "A[] b;" ∧ (∃ program, ofTokens (tokenize "A[] b;") = .ok program) ∧
      ofTokens (tokenize "A[]") = .error (.unexpectedToken (.lexeme ";") "[" ⟨1, 2⟩) := by
  refine ⟨by decide +kernel, ?_, ?_⟩
  · obtain ⟨program, hprogram, -⟩ := exists_program "A[] b;" (fun _ => True) (by decide +kernel)
    exact ⟨program, hprogram⟩
  · have htable : tokenize "A[]" =
        [⟨.identifier, "A", 1, 1⟩, ⟨.openBracket, "[", 1, 2⟩, ⟨.closeBracket, "]", 1, 3⟩] := by
      decide +kernel
    have hlexical : ∀ token ∈ tokenize "A[]", token.IsLexical :=
      fun _ hmem => Token.isLexical_of_mem_tokenize hmem
    rw [htable] at hlexical ⊢
    have hname : IsName ⟨.identifier, "A", 1, 1⟩ :=
      ⟨rfl, hlexical _ List.mem_cons_self, fun _ => by decide⟩
    have hnone : ofTokens [] = .ok ⟨[]⟩ := ofTokens_eq_ok.mpr items_nil
    exact ofTokens_cut hnone hname rfl (.pair rfl rfl .none)
      fun token hmem => hlexical token (List.mem_cons_of_mem _ hmem)

end Program

end MiniJava
