import MiniJava.Proofs.Grammar.Lookahead

/-!
# Reading programs looks no further

Statements, classes and programs are read alike whatever stands behind their table, up to the
lookaheads that its end cuts off. A statement or a class that is complete stays so in front of
anything but an `else`, a `catch` or a `finally`, so the readings of two tables can be put together.
-/

namespace MiniJava.Grammar

open Local

def continuations : List String := ["else", "catch", "finally"]

def Fresh (back : List Token) : Prop := ∀ word ∈ continuations, nextIs word back = false

section Readers

variable (back : List Token)

/-- The first part of a `for` header with its semicolon. -/
theorem forInit_local {closed : Prop} {α : Type} (tokens : List Token)
    {next : Option Stmt → List Token → Outcome α}
    (hnext : ∀ init rest, Local closed rest back (next init rest) (next init (rest ++ back))) :
    Local closed tokens back
      ((forInit tokens).outcome.andThen fun init rest =>
        (expect ";" rest).outcome.andThen fun _ rest => next init rest)
      ((forInit (tokens ++ back)).outcome.andThen fun init rest =>
        (expect ";" rest).outcome.andThen fun _ rest => next init rest) := by
  cases tokens with
  | nil =>
      have hend : (forInit []).outcome = .error (.unexpectedEnd .expression) := by
        simp [outcome_forInit, nextIs, beginsDeclaration, outcome_expressionStatement,
          outcome_expression_nil, outcome_binary, outcome_unary_nil, outcome_primary_nil,
          Outcome.andThen]
      rw [hend]
      exact ended .expression (.refl [])
  | cons token rest =>
      rw [outcome_forInit, outcome_forInit]
      by_cases hnone : nextIs ";" (token :: rest) = true
      · have hlonger : nextIs ";" (token :: rest ++ back) = true := hnone
        rw [if_pos hnone, if_pos hlonger, Outcome.ok_andThen, Outcome.ok_andThen]
        exact andThen (expect_local back (by decide) (token :: rest)).loosen
          fun _ rest _ => hnext none rest
      · have hlonger : ¬ nextIs ";" (token :: rest ++ back) = true := hnone
        rw [if_neg hnone, if_neg hlonger, Outcome.andThen_assoc, Outcome.andThen_assoc]
        refine simple_local back ?_ fun s rest => hnext (some s) rest
        exact (beginsDeclaration_append back token rest).imp_left
          (congrArg fun begins => begins || nextIs "final" (token :: rest))

theorem forHeader_local (tokens : List Token) :
    Local True tokens back (forHeader tokens).outcome (forHeader (tokens ++ back)).outcome := by
  rw [outcome_forHeader, outcome_forHeader]
  refine andThen (expect_local back (by decide) tokens) fun _ rest _ => ?_
  refine forInit_local back rest fun init rest => ?_
  refine closing (expressionUnless_local back ";" rest) (fun condition rest _ => ?_)
    fun _ => ⟨_, rfl⟩
  refine andThen (expect_local back (by decide) rest) fun _ rest _ => ?_
  refine closing (expressionsUnless_local back ")" rest) (fun update rest _ => ?_)
    fun _ => ⟨_, rfl⟩
  exact map (expect_local back (by decide) rest)

theorem catchHeader_local (tokens : List Token) :
    Local True tokens back (catchHeader tokens).outcome (catchHeader (tokens ++ back)).outcome := by
  rw [outcome_catchHeader, outcome_catchHeader]
  refine andThen (expect_local back (by decide) tokens) fun _ rest _ => ?_
  refine closing (typeName_local back rest) (fun exception rest _ => ?_) fun _ => ⟨_, rfl⟩
  refine andThen (identifier_local back rest) fun name rest _ => ?_
  exact map (expect_local back (by decide) rest)

theorem printCall_local (call : Token) (tokens : List Token) :
    Local True tokens back (printCall call tokens).outcome
      (printCall call (tokens ++ back)).outcome := by
  rw [outcome_printCall, outcome_printCall]
  refine andThen (expect_local back (by decide) tokens) fun _ rest _ => ?_
  refine closing (expressionsUnless_local back ")" rest) (fun args rest _ => ?_) fun _ => ⟨_, rfl⟩
  refine andThen (expect_local back (by decide) rest) fun _ rest _ => ?_
  exact map (expect_local back (by decide) rest)

theorem nextIs_append {tokens : List Token} (h : tokens ≠ []) (word : String) :
    nextIs word (tokens ++ back) = nextIs word tokens := by
  obtain ⟨token, rest, rfl⟩ := List.exists_cons_of_ne_nil h
  rfl

theorem modifiers_isEmpty (token : Token) (rest : List Token) :
    (modifiers (token :: rest)).value.isEmpty = (Modifier.ofWord? token.lexeme).isNone := by
  rw [modifiers]
  cases Modifier.ofWord? token.lexeme <;> rfl

/-- A statement that no word tells. -/
theorem plainStatement_local (token : Token) (rest : List Token) :
    Local True (token :: rest) back
      ((declarationOrExpression (token :: rest)).outcome.andThen fun s rest =>
        (expect ";" rest).outcome.andThen fun _ rest => .ok (s, rest))
      ((declarationOrExpression (token :: (rest ++ back))).outcome.andThen fun s rest =>
        (expect ";" rest).outcome.andThen fun _ rest => .ok (s, rest)) := by
  rw [outcome_declarationOrExpression, outcome_declarationOrExpression, modifiers_isEmpty,
    modifiers_isEmpty]
  refine simple_local back ?_ fun s rest => value s rest
  exact (beginsDeclaration_append back token rest).imp_left (congrArg _)

mutual

theorem statement_local : (tokens : List Token) → Local (Fresh back) tokens back
    (statement tokens).outcome (statement (tokens ++ back)).outcome
  | [] => by
      rw [outcome_statement_nil]
      exact ended .statement (.refl [])
  | token :: rest => by
      rw [List.cons_append]
      by_cases hmem : token.lexeme ∈ statementLexemes
      · have hknown : Known token := by
          have hwords : ∀ text ∈ statementLexemes, text ∈ words := by decide
          exact known_of_word rfl (hwords _ hmem)
        simp only [statementLexemes, List.mem_cons, List.not_mem_nil, or_false] at hmem
        rcases hmem with h | h | h | h | h | h | h | h | h | h | h
        · rw [outcome_statement_block _ h, outcome_statement_block _ h]
          exact cons hknown (map (blockBody_local rest)).loosen
        · rw [outcome_statement_empty _ h, outcome_statement_empty _ h]
          exact cons hknown (value _ rest)
        · rw [outcome_statement_if _ h, outcome_statement_if _ h]
          refine cons hknown
            (andThen (parenthesized_local back rest).loosen fun e behind hread => ?_)
          have hlt := Reading.length_lt_of_outcome hread
          refine andThen (statement_local behind) fun thenBranch tail hread => ?_
          have hshort := Reading.length_lt_of_outcome hread
          refine optional (fun hfresh => hfresh "else" (by decide))
            (fun word more htail hword => ?_) (value _ tail)
          subst htail
          exact cons (known_of_word hword (by decide)) (map (statement_local more))
        · rw [outcome_statement_while _ h, outcome_statement_while _ h]
          refine cons hknown
            (andThen (parenthesized_local back rest).loosen fun e behind hread => ?_)
          have hlt := Reading.length_lt_of_outcome hread
          exact map (statement_local behind)
        · rw [outcome_statement_do _ h, outcome_statement_do _ h]
          refine cons hknown (closing (statement_local rest) (fun body behind _ => ?_)
            fun _ => ⟨_, rfl⟩)
          refine Local.loosen (andThen (expect_local back (by decide) behind) fun _ behind _ => ?_)
          refine andThen (parenthesized_local back behind) fun e behind _ => ?_
          exact map (expect_local back (by decide) behind)
        · rw [outcome_statement_for _ h, outcome_statement_for _ h]
          refine cons hknown
            (andThen (forHeader_local back rest).loosen fun header behind hread => ?_)
          have hlt := Reading.length_lt_of_outcome hread
          exact map (statement_local behind)
        · rw [outcome_statement_switch _ h, outcome_statement_switch _ h]
          refine cons hknown (Local.loosen
            (andThen (parenthesized_local back rest) fun e behind hread => ?_))
          have hlt := Reading.length_lt_of_outcome hread
          refine andThen (expect_local back (by decide) behind) fun _ tail hread => ?_
          have hshort := Reading.length_lt_of_outcome hread
          exact map (switchBody_local tail)
        · rw [outcome_statement_try _ h, outcome_statement_try _ h]
          refine cons hknown (andThen (block_local rest).loosen fun body behind hread => ?_)
          have hlt := Reading.length_lt_of_outcome hread
          refine andThen (catches_local behind) fun clauses tail hread => ?_
          have hshort := Reading.length_lt_of_outcome hread
          refine optional (fun hfresh => hfresh "finally" (by decide))
            (fun word more htail hword => ?_)
            (ite (fun _ => refused _ tail _) fun _ => value _ tail)
          subst htail
          exact cons (known_of_word hword (by decide)) (map (block_local more)).loosen
        · rw [outcome_statement_return _ h, outcome_statement_return _ h]
          refine cons hknown (closing (expressionUnless_local back ";" rest)
            (fun value behind _ => ?_) fun _ => ⟨_, rfl⟩)
          exact (map (expect_local back (by decide) behind)).loosen
        · rw [outcome_statement_break _ h, outcome_statement_break _ h]
          exact cons hknown (map (expect_local back (by decide) rest)).loosen
        · rw [outcome_statement_continue _ h, outcome_statement_continue _ h]
          exact cons hknown (map (expect_local back (by decide) rest)).loosen
      · rw [outcome_statement_other _ hmem, outcome_statement_other _ hmem]
        exact ite (fun hprint => cons (known_of_kind (by simp [hprint]))
          (printCall_local back token rest).loosen) fun _ =>
            (plainStatement_local back token rest).loosen
termination_by tokens => 2 * tokens.length
decreasing_by
  all_goals
    simp only [List.length_cons] at *
    omega

theorem block_local (tokens : List Token) :
    Local True tokens back (block tokens).outcome (block (tokens ++ back)).outcome := by
  rw [outcome_block, outcome_block]
  refine andThen (expect_local back (by decide) tokens) fun _ rest hread => ?_
  have hlt := Reading.length_lt_of_outcome hread
  exact blockBody_local rest
termination_by 2 * tokens.length
decreasing_by all_goals omega

theorem blockBody_local : (tokens : List Token) → Local True tokens back
    (blockBody tokens).outcome (blockBody (tokens ++ back)).outcome
  | [] => by
      rw [outcome_blockBody_nil]
      exact ended .blockEnd (.refl [])
  | token :: rest => by
      rw [List.cons_append]
      by_cases hend : token.lexeme = "\x7d"
      · rw [outcome_blockBody_end _ hend, outcome_blockBody_end _ hend]
        exact cons (known_of_word hend (by decide)) (value [] rest)
      · rw [outcome_blockBody_cons _ hend, outcome_blockBody_cons _ hend]
        refine closing (statement_local (token :: rest)) (fun s behind hread => ?_) fun _ => ?_
        · have hlt := Reading.length_lt_of_outcome hread
          exact map (blockBody_local behind)
        · exact ⟨.blockEnd, by rw [outcome_blockBody_nil]; rfl⟩
termination_by tokens => 2 * tokens.length + 1
decreasing_by
  all_goals
    simp only [List.length_cons] at *
    omega

theorem catches_local : (tokens : List Token) → Local (Fresh back) tokens back
    (catches tokens).outcome (catches (tokens ++ back)).outcome
  | [] => by
      -- A statement may end here, so this end is kept in front of a fresh table.
      rw [outcome_catches_stop rfl]
      refine ⟨ReadsTo.refl [], ?_, nofun⟩
      rintro _ _ ⟨⟩ (hrest | hfresh)
      · exact absurd rfl hrest
      · exact outcome_catches_stop (hfresh "catch" (by decide))
  | token :: rest => by
      rw [List.cons_append]
      by_cases hword : token.lexeme = "catch"
      · rw [outcome_catches_cons _ hword, outcome_catches_cons _ hword]
        refine cons (known_of_word hword (by decide))
          (andThen (catchHeader_local back rest).loosen fun header behind hread => ?_)
        have hlt := Reading.length_lt_of_outcome hread
        refine andThen (block_local behind).loosen fun body tail hread => ?_
        have hshort := Reading.length_lt_of_outcome hread
        exact map (catches_local tail)
      · have hstop (more : List Token) : nextIs "catch" (token :: more) = false :=
          decide_eq_false hword
        rw [outcome_catches_stop (hstop rest), outcome_catches_stop (hstop (rest ++ back))]
        exact value [] (token :: rest)
termination_by tokens => 2 * tokens.length
decreasing_by
  all_goals
    simp only [List.length_cons] at *
    omega

theorem switchBody_local : (tokens : List Token) → Local True tokens back
    (switchBody tokens).outcome (switchBody (tokens ++ back)).outcome
  | [] => by
      rw [outcome_switchBody_nil]
      exact ended .switchLabel (.refl [])
  | token :: rest => by
      rw [List.cons_append]
      by_cases hcase : token.lexeme = "case"
      · rw [outcome_switchBody_case _ hcase, outcome_switchBody_case _ hcase]
        refine cons (known_of_word hcase (by decide)) (closing (expression_local back rest)
          (fun e behind hread => ?_) fun _ => ⟨_, rfl⟩)
        have hfirst := Reading.length_lt_of_outcome hread
        refine andThen (expect_local back (by decide) behind) fun _ behind hread => ?_
        have hsecond := Reading.length_lt_of_outcome hread
        refine andThen (caseBody_local behind) fun body tail hread => ?_
        have hthird := Reading.length_lt_of_outcome hread
        exact map (switchBody_local tail)
      · by_cases hdefault : token.lexeme = "default"
        · rw [outcome_switchBody_default _ hdefault, outcome_switchBody_default _ hdefault]
          refine cons (known_of_word hdefault (by decide))
            (andThen (expect_local back (by decide) rest) fun _ behind hread => ?_)
          have hfirst := Reading.length_lt_of_outcome hread
          refine andThen (caseBody_local behind) fun body tail hread => ?_
          have hsecond := Reading.length_lt_of_outcome hread
          exact map (switchBody_local tail)
        · by_cases hend : token.lexeme = "\x7d"
          · rw [outcome_switchBody_end _ hend, outcome_switchBody_end _ hend]
            exact cons (known_of_word hend (by decide)) (value _ rest)
          · rw [outcome_switchBody_other _ hcase hdefault hend,
              outcome_switchBody_other _ hcase hdefault hend]
            exact refused _ (token :: rest) _
termination_by tokens => 2 * tokens.length
decreasing_by
  all_goals
    simp only [List.length_cons] at *
    omega

theorem caseBody_local : (tokens : List Token) → Local True tokens back
    (caseBody tokens).outcome (caseBody (tokens ++ back)).outcome
  | [] => by
      rw [outcome_caseBody_nil]
      exact ended .switchEnd (.refl [])
  | token :: rest => by
      rw [List.cons_append]
      by_cases hend : endsCase token = true
      · rw [outcome_caseBody_end _ hend, outcome_caseBody_end _ hend]
        exact value [] (token :: rest)
      · rw [outcome_caseBody_cons _ hend, outcome_caseBody_cons _ hend]
        refine closing (statement_local (token :: rest)) (fun s behind hread => ?_) fun _ => ?_
        · have hlt := Reading.length_lt_of_outcome hread
          exact map (caseBody_local behind)
        · exact ⟨.switchEnd, by rw [outcome_caseBody_nil]; rfl⟩
termination_by tokens => 2 * tokens.length + 1
decreasing_by
  all_goals
    simp only [List.length_cons] at *
    omega

end

theorem param_local (tokens : List Token) :
    Local True tokens back (param tokens).outcome (param (tokens ++ back)).outcome := by
  rw [outcome_param, outcome_param]
  refine closing (typeName_local back tokens) (fun type rest _ => ?_) fun _ => ⟨_, rfl⟩
  exact map (identifier_local back rest)

theorem params_local (tokens : List Token) :
    Local False tokens back (params tokens).outcome (params (tokens ++ back)).outcome := by
  rw [outcome_params, outcome_params]
  refine andThen (param_local back tokens).loosen fun first rest hread => ?_
  have hlt := Reading.length_lt_of_outcome hread
  refine optional False.elim (fun comma more hrest hcomma => ?_) (value [first] rest)
  subst hrest
  exact cons (known_of_word hcomma (by decide)) (map (params_local more))
termination_by tokens.length
decreasing_by
  rw [List.length_cons] at hlt
  omega

theorem paramsUnless_local (stop : String) (tokens : List Token) :
    Local False tokens back (paramsUnless stop tokens).outcome
      (paramsUnless stop (tokens ++ back)).outcome := by
  have hparams := params_local back tokens
  rw [outcome_paramsUnless, outcome_paramsUnless]
  cases tokens with
  | nil => exact nil hparams.stops
  | cons token rest => exact ite (fun _ => value [] (token :: rest)) fun _ => hparams

theorem method_local (mods : List Modifier) (returnType : Option TypeName) (name : Token)
    (tokens : List Token) :
    Local True tokens back (method mods returnType name tokens).outcome
      (method mods returnType name (tokens ++ back)).outcome := by
  rw [outcome_method, outcome_method]
  refine andThen (expect_local back (by decide) tokens) fun _ rest _ => ?_
  refine closing (paramsUnless_local back ")" rest) (fun params rest _ => ?_) fun _ => ⟨_, rfl⟩
  refine andThen (expect_local back (by decide) rest) fun _ rest _ => ?_
  exact map (block_local back rest)

theorem constructor_local (mods : List Modifier) (tokens : List Token) :
    Local True tokens back (constructor mods tokens).outcome
      (constructor mods (tokens ++ back)).outcome := by
  rw [outcome_constructor, outcome_constructor]
  refine andThen (identifier_local back tokens) fun name rest _ => ?_
  exact map (method_local back mods none name rest)

theorem typedMember_local (mods : List Modifier) (tokens : List Token) :
    Local True tokens back (typedMember mods tokens).outcome
      (typedMember mods (tokens ++ back)).outcome := by
  rw [outcome_typedMember, outcome_typedMember]
  refine closing (typeName_local back tokens) (fun type rest _ => ?_) fun _ => ⟨_, rfl⟩
  refine andThen (identifier_local back rest) fun name rest _ => ?_
  cases rest with
  | nil => exact ended (.lexeme ";") (.refl [])
  | cons token rest =>
      refine ite (fun _ => map (method_local back mods (some type) name (token :: rest)))
        fun _ => ?_
      refine closing (declarator_local back mods type name (token :: rest))
        (fun decl rest _ => ?_) fun _ => ⟨_, rfl⟩
      exact map (expect_local back (by decide) rest)

theorem methodOrField_local (className : String) (mods : List Modifier) (tokens : List Token) :
    Local True tokens back (methodOrField className mods tokens).outcome
      (methodOrField className mods (tokens ++ back)).outcome := by
  have htyped := typedMember_local back mods tokens
  rw [outcome_methodOrField, outcome_methodOrField]
  match tokens with
  | [] => exact ended .type (.refl [])
  | [name] =>
      change Local True [name] back (typedMember mods [name]).outcome _
      rw [outcome_typedMember] at htyped ⊢
      by_cases hnames : namesType name = true
      · -- The longer table may begin a constructor, but the shorter one asks for a name.
        rw [outcome_typeName [] hnames, outcome_dimensions_stop rfl]
        exact ended .identifier (.one (known_of_namesType hnames) [])
      · have hkind : name.kind ≠ .identifier := by
          intro hkind
          simp [namesType, hkind] at hnames
        have hrefuses : (constructor mods (name :: back)).outcome =
            .error (.atNext .identifier (name :: back)) := by
          rw [outcome_constructor, outcome_identifier_cons, if_neg hkind]
          rfl
        split
        · have hshort : (typeName [name]).outcome = .error (.atNext .type [name]) := by
            rw [typeName, if_neg hnames]
            rfl
          rw [hshort, List.singleton_append, hrefuses]
          exact refused .type [name] _
        · exact htyped
  | name :: next :: rest =>
      exact ite (fun _ => constructor_local back mods (name :: next :: rest)) fun _ => htyped

mutual

theorem classDecl_local (mods : List Modifier) (tokens : List Token) :
    Local True tokens back (classDecl mods tokens).outcome
      (classDecl mods (tokens ++ back)).outcome := by
  rw [outcome_classDecl, outcome_classDecl]
  refine andThen (expect_local back (by decide) tokens) fun keyword rest hread => ?_
  have hfirst := Reading.length_lt_of_outcome hread
  refine andThen (identifier_local back rest) fun name rest hread => ?_
  have hsecond := Reading.length_lt_of_outcome hread
  refine andThen (expect_local back (by decide) rest) fun _ rest hread => ?_
  have hthird := Reading.length_lt_of_outcome hread
  exact map (members_local name.lexeme rest)
termination_by 3 * tokens.length
decreasing_by all_goals omega

theorem member_local (className : String) (tokens : List Token) :
    Local True tokens back (member className tokens).outcome
      (member className (tokens ++ back)).outcome := by
  have hlt := (modifiers tokens).lt
  rw [outcome_member, outcome_member]
  refine Local.behind ?_ (readsTo_modifiers tokens)
  by_cases hrest : (modifiers tokens).rest = []
  · rw [hrest]
    exact ended .type (.refl [])
  · obtain ⟨hvalue, hmore⟩ := modifiers_append back hrest
    rw [hvalue, hmore, nextIs_append back hrest]
    exact ite (fun _ => map (classDecl_local _ (modifiers tokens).rest))
      fun _ => methodOrField_local back className _ _
termination_by 3 * tokens.length + 1
decreasing_by all_goals omega

theorem members_local (className : String) : (tokens : List Token) →
    Local True tokens back (members className tokens).outcome
      (members className (tokens ++ back)).outcome
  | [] => by
      rw [outcome_members_nil]
      exact ended .classEnd (.refl [])
  | token :: rest => by
      rw [List.cons_append]
      by_cases hend : token.lexeme = "\x7d"
      · rw [outcome_members_end _ _ hend, outcome_members_end _ _ hend]
        exact cons (known_of_word hend (by decide)) (value [] rest)
      · by_cases hskip : token.lexeme = ";"
        · rw [outcome_members_skip _ _ hskip, outcome_members_skip _ _ hskip]
          exact cons (known_of_word hskip (by decide)) (members_local className rest)
        · rw [outcome_members_cons _ _ hend hskip, outcome_members_cons _ _ hend hskip]
          refine andThen (member_local className (token :: rest)) fun first behind hread => ?_
          have hlt := Reading.length_lt_of_outcome hread
          exact map (members_local className behind)
termination_by tokens => 3 * tokens.length + 2
decreasing_by
  all_goals
    simp only [List.length_cons] at *
    omega

end

theorem modifiers_only {tokens : List Token} (h : (modifiers tokens).rest = []) :
    ∀ token ∈ tokens, Modifier.ofWord? token.lexeme ≠ none := by
  induction tokens with
  | nil => nofun
  | cons token rest ih =>
      rw [modifiers] at h
      cases hword : Modifier.ofWord? token.lexeme with
      | none =>
          rw [hword] at h
          cases h
      | some modifier =>
          rw [hword] at h
          exact List.forall_mem_cons.mpr ⟨by simp [hword], ih h⟩

/-- Modifiers that nothing follows are no statement, and a class may follow. -/
theorem statement_modifiers {tokens : List Token} (h : (modifiers tokens).rest = [])
    (closed : Prop) {α : Type} (long : Outcome α) :
    ∃ error, (statement tokens).outcome = .error error ∧
      Local closed tokens back (.error error) long := by
  have hreads := readsTo_modifiers tokens
  rw [h] at hreads
  have hall := modifiers_only h
  cases tokens with
  | nil =>
      rw [outcome_statement_nil]
      exact ⟨_, rfl, ended .statement hreads⟩
  | cons token rest =>
      have hword : Modifier.ofWord? token.lexeme ≠ none := hall token List.mem_cons_self
      have hother : token.lexeme ∉ statementLexemes := by
        have hnone : ∀ text ∈ statementLexemes, Modifier.ofWord? text = none := by decide
        exact fun hmem => hword (hnone _ hmem)
      rw [outcome_statement_other _ hother]
      by_cases hprint : token.kind = .printCall
      -- The statement is taken for a print call, while the longer table may hold a class.
      · have hopening : (expect "(" rest).outcome = .error (.atNext (.lexeme "(") rest) := by
          cases rest with
          | nil => rfl
          | cons next more =>
              have hnext := hall next (List.mem_cons_of_mem _ List.mem_cons_self)
              rw [outcome_expect_cons, if_neg fun heq : next.lexeme = "(" => hnext (heq ▸ rfl)]
        rw [if_pos hprint, outcome_printCall, hopening]
        exact ⟨_, rfl, undecided (known_of_kind (by simp [hprint])) (.modifiers hprint hall)
          ⟨.lexeme "(", rest, .refl rest, rfl⟩⟩
      · have hempty : ¬ (modifiers (token :: rest)).value.isEmpty = true := by
          rw [modifiers_isEmpty]
          simp [hword]
        rw [if_neg hprint, outcome_declarationOrExpression, outcome_declaration, h]
        refine ⟨.unexpectedEnd .type, ?_, ended .type hreads⟩
        rw [if_pos (by simp [hempty])]
        rfl

theorem item_local (tokens : List Token) :
    Local (Fresh back) tokens back (item tokens).outcome (item (tokens ++ back)).outcome := by
  by_cases hrest : (modifiers tokens).rest = []
  · obtain ⟨error, hread, herror⟩ :=
      statement_modifiers back hrest (Fresh back) (item (tokens ++ back)).outcome
    have hshort : (item tokens).outcome = .error error := by
      rw [outcome_item, hrest, hread]
      rfl
    rw [hshort]
    exact herror
  · obtain ⟨hvalue, hmore⟩ := modifiers_append back hrest
    rw [outcome_item, outcome_item, hvalue, hmore, nextIs_append back hrest]
    refine ite (fun _ => ?_) fun _ => map (statement_local back tokens)
    exact (map (classDecl_local back _ (modifiers tokens).rest)).loosen.behind
      (readsTo_modifiers tokens)

end Readers

theorem item_nil : (item []).outcome = .error (.unexpectedEnd .statement) := by
  rw [outcome_item, outcome_statement_nil]
  rfl

theorem items_of_rejected {tokens : List Token} {error : SyntaxError} (hsome : tokens ≠ [])
    (h : (item tokens).outcome = .error error) : items tokens = .error error := by
  obtain ⟨token, rest, rfl⟩ := List.exists_cons_of_ne_nil hsome
  rw [items_cons, h]

theorem items_of_item {tokens rest : List Token} {first : Item}
    (h : (item tokens).outcome = .ok (first, rest)) :
    items tokens = (items rest).map (first :: ·) := by
  cases tokens with
  | nil => cases item_nil.symm.trans h
  | cons token more => rw [items_cons, h]

/-- Induction over the items that a table begins with. -/
theorem items_induction {motive : List Token → Prop} (done : motive [])
    (rejected : ∀ tokens error, tokens ≠ [] → (item tokens).outcome = .error error →
      items tokens = .error error → motive tokens)
    (read : ∀ tokens first rest more, (item tokens).outcome = .ok (first, rest) →
      items rest = .ok more → items tokens = .ok (first :: more) → motive rest → motive tokens)
    (failed : ∀ tokens first rest error, (item tokens).outcome = .ok (first, rest) →
      items rest = .error error → items tokens = .error error → motive rest → motive tokens)
    (tokens : List Token) : motive tokens := by
  by_cases hsome : tokens = []
  · exact hsome ▸ done
  rcases hread : (item tokens).outcome with error | ⟨first, rest⟩
  · exact rejected tokens error hsome hread (items_of_rejected hsome hread)
  · have hlt := Reading.length_lt_of_outcome hread
    have hitems := items_of_item hread
    have ih := items_induction done rejected read failed rest
    rcases hmore : items rest with error | more
    · exact failed tokens first rest error hread hmore (by rw [hitems, hmore]; rfl) ih
    · exact read tokens first rest more hread hmore (by rw [hitems, hmore]; rfl) ih
termination_by tokens.length

theorem readsTo_of_item {tokens rest : List Token} {first : Item}
    (h : (item tokens).outcome = .ok (first, rest)) : ReadsTo tokens rest := by
  have hstops := (item_local [] tokens).stops
  rwa [h] at hstops

/-- A program takes the whole table, and a rejected token stands behind known ones. -/
theorem items_stops (tokens : List Token) :
    Stops tokens ((items tokens).map fun list => (list, [])) := by
  induction tokens using items_induction with
  | done =>
      rw [items_nil]
      exact ReadsTo.refl []
  | rejected tokens error _ hread hitems =>
      have hstops := (item_local [] tokens).stops
      rw [hread] at hstops
      rw [hitems]
      exact hstops
  | read tokens first rest more hread hmore hitems ih =>
      rw [hmore] at ih
      rw [hitems]
      exact (readsTo_of_item hread).trans ih
  | failed tokens first rest error hread hmore hitems ih =>
      rw [hmore] at ih
      rw [hitems]
      exact ih.behind (readsTo_of_item hread)

variable (back : List Token)

/-- A complete program stays as it is in front of a fresh table. -/
theorem items_append (hfresh : Fresh back) {tokens : List Token} {list : List Item}
    (h : items tokens = .ok list) : items (tokens ++ back) = (items back).map (list ++ ·) := by
  induction tokens using items_induction generalizing list with
  | done =>
      rw [items_nil] at h
      cases h
      change items back = (items back).map id
      cases items back <;> rfl
  | rejected _ _ _ _ hitems => cases hitems.symm.trans h
  | read tokens first rest more hread hmore hitems ih =>
      cases hitems.symm.trans h
      have hlonger := (item_local back tokens).kept first rest hread (.inr hfresh)
      rw [items_of_item hlonger, ih hmore]
      cases items back <;> rfl
  | failed _ _ _ _ _ _ hitems _ => cases hitems.symm.trans h

/-- The front of a program is one, or the reader misses something or is misled at its end. -/
theorem items_front {tokens : List Token} {error : SyntaxError} (h : items tokens = .error error) :
    (∃ expected, error = .unexpectedEnd expected) ∨
      (∃ other, items (tokens ++ back) = .error other) ∨ Misled tokens error := by
  induction tokens using items_induction with
  | done =>
      rw [items_nil] at h
      cases h
  | rejected tokens _ hsome hread hitems =>
      cases hitems.symm.trans h
      refine ((item_local back tokens).rejected error hread).imp_right (Or.imp_left ?_)
      rintro ⟨other, hlonger⟩
      exact ⟨other, items_of_rejected (List.append_ne_nil_of_left_ne_nil hsome back) hlonger⟩
  | read _ _ _ _ _ _ hitems _ => cases hitems.symm.trans h
  | failed tokens first rest _ hread hmore hitems ih =>
      cases hitems.symm.trans h
      have hsome : rest ≠ [] := by
        rintro rfl
        cases items_nil.symm.trans hmore
      have hlonger := (item_local back tokens).kept first rest hread (.inl hsome)
      refine (ih hmore).imp_right (Or.imp ?_ fun hmisled => hmisled.behind (readsTo_of_item hread))
      rintro ⟨other, hother⟩
      exact ⟨other, by rw [items_of_item hlonger, hother]; rfl⟩

end MiniJava.Grammar

namespace MiniJava.Program

open Grammar

theorem ofTokens_eq_ok {tokens : List Token} {program : Program} :
    ofTokens tokens = .ok program ↔ Grammar.items tokens = .ok program.items := by
  obtain ⟨list⟩ := program
  rw [ofTokens]
  cases Grammar.items tokens <;> simp [Except.map]

theorem ofTokens_eq_error {tokens : List Token} {error : SyntaxError} :
    ofTokens tokens = .error error ↔ Grammar.items tokens = .error error := by
  rw [ofTokens]
  cases Grammar.items tokens <;> simp [Except.map]

/-- An accepted table is read up to its end. -/
theorem readsTo_of_accepted {tokens : List Token} {program : Program}
    (h : ofTokens tokens = .ok program) : ReadsTo tokens [] := by
  have hstops := items_stops tokens
  rwa [ofTokens_eq_ok.mp h] at hstops

/-- A rejected table is read up to the token that the error is about. -/
theorem stops_of_rejected {tokens : List Token} {error : SyntaxError}
    (h : ofTokens tokens = .error error) :
    ∃ expected rest, ReadsTo tokens rest ∧ error = .atNext expected rest := by
  have hstops := items_stops tokens
  rwa [ofTokens_eq_error.mp h] at hstops

end MiniJava.Program
