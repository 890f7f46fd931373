import MiniJava.Proofs.Grammar.DeclarationComplete
import MiniJava.Proofs.Grammar.ProgramSound

/-!
# Statements and classes are read back

What spells a statement is read as it if nothing behind it could become part of it: no `else` behind
an `if` that is left open, and no handler. No statement begins with such a word, so in a program
every statement is read back.
-/

namespace MiniJava.Grammar

open Lexeme

def caseStops : List String := ["\x7d", "case", "default"]

def stops : List String := caseStops ++ ["else", "catch", "finally"]

theorem mem_openers_of_word {text : String} (h : text ∈ statementLexemes) : text ∈ openers :=
  List.mem_append_left _ (List.mem_append_left _ h)

theorem mem_openers_of_stop {text : String} (h : text ∈ stops) : text ∈ openers := by
  have hall : ∀ text ∈ stops, text ∈ openers := by decide
  exact hall text h

theorem modifier_not_mem (modifier : Modifier) :
    modifier.word ∉ statementLexemes ∧ modifier.word ∉ stops := by
  cases modifier <;> decide

/-- A statement has a word of its own, or it is a print call, a declaration or an expression. -/
theorem Spells.first_cases {s : Stmt} {tokens : List Token} (h : Spells (.statement s) tokens) :
    (∃ inner semicolon, tokens = inner ++ [semicolon] ∧ SpellsSimple s inner ∧
      semicolon.lexeme = ";") ∨
    ∃ first tail, tokens = first :: tail ∧
      (first.lexeme ∈ statementLexemes ∨ first.lexeme ∉ openers) := by
  cases h with
  | simple hsimple hsemicolon => exact .inl ⟨_, _, rfl, hsimple, hsemicolon⟩
  | print hkind hregular _ _ _ _ =>
      exact .inr ⟨_, _, rfl, .inr (not_mem_openers hregular (by rw [hkind]; decide))⟩
  | empty hsemicolon => exact .inr ⟨_, _, rfl, .inl (hsemicolon ▸ by decide)⟩
  | block hblock =>
      cases hblock with
      | braces hopening _ _ => exact .inr ⟨_, _, rfl, .inl (hopening ▸ by decide)⟩
  | ifThen hword _ _ => exact .inr ⟨_, _, rfl, .inl (hword ▸ by decide)⟩
  | ifElse hword _ _ _ _ _ => exact .inr ⟨_, _, rfl, .inl (hword ▸ by decide)⟩
  | whileLoop hword _ _ => exact .inr ⟨_, _, rfl, .inl (hword ▸ by decide)⟩
  | doWhile hword _ _ _ _ => exact .inr ⟨_, _, rfl, .inl (hword ▸ by decide)⟩
  | forLoop hword _ _ => exact .inr ⟨_, _, rfl, .inl (hword ▸ by decide)⟩
  | switch hword _ _ _ => exact .inr ⟨_, _, rfl, .inl (hword ▸ by decide)⟩
  | tryCatch hword _ _ _ => exact .inr ⟨_, _, rfl, .inl (hword ▸ by decide)⟩
  | tryFinally hword _ _ _ _ => exact .inr ⟨_, _, rfl, .inl (hword ▸ by decide)⟩
  | returns hword _ _ => exact .inr ⟨_, _, rfl, .inl (hword ▸ by decide)⟩
  | breaks hword _ => exact .inr ⟨_, _, rfl, .inl (hword ▸ by decide)⟩
  | continues hword _ => exact .inr ⟨_, _, rfl, .inl (hword ▸ by decide)⟩

theorem Spells.exists_first {s : Stmt} {tokens : List Token} (h : Spells (.statement s) tokens)
    (hlexical : ∀ token ∈ tokens, token.IsLexical) :
    ∃ first tail, tokens = first :: tail ∧ first.lexeme ∉ stops := by
  have hword : ∀ text ∈ statementLexemes, text ∉ stops := by decide
  rcases h.first_cases with ⟨inner, semicolon, rfl, hsimple, -⟩ | ⟨first, tail, rfl, hfirst⟩
  · obtain ⟨first, tail, rfl, -, hopens | ⟨modifier, hmodifier⟩⟩ := hsimple.exists_first
      fun token hmem => hlexical token (List.mem_append_left _ hmem)
    · exact ⟨first, _, rfl, fun hmem => hopens (mem_openers_of_stop hmem)⟩
    · exact ⟨first, _, rfl, hmodifier ▸ (modifier_not_mem modifier).2⟩
  · refine ⟨first, tail, rfl, ?_⟩
    rcases hfirst with hmem | hopens
    · exact hword _ hmem
    · exact fun hmem => hopens (mem_openers_of_stop hmem)

/-- Behind the modifiers that a statement begins with there is no class. -/
theorem Spells.no_class {s : Stmt} {tokens : List Token} (rest : List Token)
    (h : Spells (.statement s) tokens) (hlexical : ∀ token ∈ tokens, token.IsLexical) :
    nextIs "class" (modifiers (tokens ++ rest)).rest = false := by
  have hword : ∀ text ∈ statementLexemes, Modifier.ofWord? text = none ∧ text ≠ "class" := by
    decide
  rcases h.first_cases with ⟨inner, semicolon, rfl, hsimple, hmark⟩ | ⟨first, tail, rfl, hfirst⟩
  · have hlex := hlexical semicolon (List.mem_append_right _ (List.mem_singleton_self _))
    rw [List.append_assoc, List.singleton_append]
    exact hsimple.no_class rest hlex (hmark ▸ by decide)
  · rcases hfirst with hmem | hopens
    · obtain ⟨hnone, hclass⟩ := hword _ hmem
      have hbehind := (SpellsModifiers.read (tail ++ rest) .nil hnone).2
      simp only [List.nil_append] at hbehind
      rw [List.cons_append, hbehind]
      exact decide_eq_false hclass
    · rw [List.cons_append, (modifiers_read_none _ hopens).2]
      exact nextIs_eq_false _ hopens (by decide)

/-- What stands behind a statement cannot become part of it. -/
structure Admits (s : Stmt) (rest : List Token) : Prop where
  noElse : s.endsOpen = true → nextIs "else" rest = false
  noCatch : nextIs "catch" rest = false
  noFinally : nextIs "finally" rest = false

/-- What begins with no word that continues a statement may stand behind any. -/
theorem admits_cons (s : Stmt) {next : Token} (rest : List Token)
    (h : next.lexeme ∉ ["else", "catch", "finally"]) : Admits s (next :: rest) := by
  simp only [List.mem_cons, List.not_mem_nil, or_false, not_or] at h
  exact ⟨fun _ => decide_eq_false h.1, decide_eq_false h.2.1, decide_eq_false h.2.2⟩

def Phrase.ReadsBack : Phrase → List Token → Prop
  | .statement s, tokens => ∀ rest, Admits s rest →
      (Grammar.statement (tokens ++ rest)).outcome = .ok (s, rest)
  | .statements body, tokens => ∀ (stop : Token) rest, stop.lexeme ∈ caseStops →
      (stop.lexeme = "\x7d" →
        (blockBody (tokens ++ stop :: rest)).outcome = .ok (body, rest)) ∧
      (caseBody (tokens ++ stop :: rest)).outcome = .ok (body, stop :: rest)
  | .block body, tokens => ∀ rest, (Grammar.block (tokens ++ rest)).outcome = .ok (body, rest)
  | .clauses list, tokens => ∀ rest, nextIs "catch" rest = false →
      (catches (tokens ++ rest)).outcome = .ok (list, rest)
  | .sections body, tokens => ∀ rest, (switchBody (tokens ++ rest)).outcome = .ok (body, rest)

theorem readsBack_simple {s : Stmt} {semicolon : Token} {tokens : List Token}
    (h : SpellsSimple s tokens) (hsemicolon : semicolon.lexeme = ";")
    (hlexical : ∀ token ∈ tokens ++ [semicolon], token.IsLexical) :
    (Phrase.statement s).ReadsBack (tokens ++ [semicolon]) := by
  intro rest _
  simp only [List.forall_mem_append, List.forall_mem_singleton] at hlexical
  have hread := h.read rest hlexical.2 (hsemicolon ▸ by decide)
  obtain ⟨first, tail, rfl, hprint, hfirst⟩ := h.exists_first hlexical.1
  have hother : first.lexeme ∉ statementLexemes := by
    rcases hfirst with hopens | ⟨modifier, hmodifier⟩
    · exact fun hmem => hopens (mem_openers_of_word hmem)
    · exact hmodifier ▸ (modifier_not_mem modifier).1
  rw [List.append_assoc, List.cons_append, List.singleton_append,
    outcome_statement_other _ hother, if_neg hprint]
  rw [List.cons_append] at hread
  rw [hread, Outcome.ok_andThen, outcome_expect _ hsemicolon, Outcome.ok_andThen]

theorem readsBack_print {call opening closing semicolon : Token} {args : List Expr}
    {tokens : List Token} (hkind : call.kind = .printCall) (hregular : call.IsRegular)
    (hopening : opening.lexeme = "(") (hargs : Listed SpellsExpr args tokens)
    (hclosing : closing.lexeme = ")") (hsemicolon : semicolon.lexeme = ";")
    (hlexical : ∀ token ∈ call :: opening :: (tokens ++ closing :: [semicolon]),
      token.IsLexical) :
    (Phrase.statement (.print (printKind call.lexeme) args call.position)).ReadsBack
      (call :: opening :: (tokens ++ closing :: [semicolon])) := by
  intro rest _
  simp only [List.forall_mem_cons, List.forall_mem_append] at hlexical
  have hother : call.lexeme ∉ statementLexemes := fun hmem =>
    not_mem_openers hregular (by rw [hkind]; decide) (mem_openers_of_word hmem)
  have hread := expressions_read hargs hlexical.2.2.1 (semicolon :: rest) hlexical.2.2.2.1 hclosing
  rw [List.cons_append, List.cons_append, outcome_statement_other _ hother, if_pos hkind,
    outcome_printCall, outcome_expect _ hopening, Outcome.ok_andThen, List.append_assoc,
    List.cons_append, List.singleton_append, hread, Outcome.ok_andThen, outcome_expect _ hclosing,
    Outcome.ok_andThen, outcome_expect _ hsemicolon, Outcome.ok_andThen]

theorem readsBack_ifElse {word other : Token} {e : Expr} {thenBranch elseBranch : Stmt}
    {head tokens more : List Token} (hword : word.lexeme = "if") (he : SpellsGroup e head)
    (hclosed : thenBranch.endsOpen = false) (hother : other.lexeme = "else")
    (hlexical : ∀ token ∈ head, token.IsLexical)
    (ihthen : (Phrase.statement thenBranch).ReadsBack tokens)
    (ihelse : (Phrase.statement elseBranch).ReadsBack more) :
    (Phrase.statement (.ifElse e thenBranch (some elseBranch))).ReadsBack
      (word :: (head ++ (tokens ++ other :: more))) := by
  intro rest hrest
  have hthen : Admits thenBranch (other :: (more ++ rest)) := by
    refine ⟨fun hopen => ?_, by simp [nextIs, hother], by simp [nextIs, hother]⟩
    rw [hclosed] at hopen
    cases hopen
  have helse : Admits elseBranch rest := ⟨hrest.noElse, hrest.noCatch, hrest.noFinally⟩
  have hnext : nextIs "else" (other :: (more ++ rest)) = true := decide_eq_true hother
  rw [List.cons_append, outcome_statement_if _ hword, List.append_assoc,
    parenthesized_read _ he hlexical, Outcome.ok_andThen, List.append_assoc, List.cons_append,
    ihthen _ hthen, Outcome.ok_andThen, if_pos hnext, List.tail_cons, ihelse rest helse,
    Outcome.ok_andThen]

theorem readsBack_doWhile {word again semicolon : Token} {e : Expr} {body : Stmt}
    {tokens tail : List Token} (hword : word.lexeme = "do") (hagain : again.lexeme = "while")
    (he : SpellsGroup e tail) (hsemicolon : semicolon.lexeme = ";")
    (hlexical : ∀ token ∈ tail, token.IsLexical)
    (ih : (Phrase.statement body).ReadsBack tokens) :
    (Phrase.statement (.doWhile body e)).ReadsBack
      (word :: (tokens ++ again :: (tail ++ [semicolon]))) := by
  intro rest _
  have hbody : Admits body (again :: (tail ++ semicolon :: rest)) :=
    admits_cons _ _ (hagain ▸ by decide)
  rw [List.cons_append, outcome_statement_do _ hword, List.append_assoc, List.cons_append,
    List.append_assoc, List.singleton_append, ih _ hbody, Outcome.ok_andThen,
    outcome_expect _ hagain, Outcome.ok_andThen, parenthesized_read _ he hlexical,
    Outcome.ok_andThen, outcome_expect _ hsemicolon, Outcome.ok_andThen]

theorem readsBack_cons {s : Stmt} {body : List Stmt} {tokens more : List Token}
    (hs : Spells (.statement s) tokens) (hbody : Spells (.statements body) more)
    (hlexical : ∀ token ∈ tokens ++ more, token.IsLexical)
    (ihfirst : (Phrase.statement s).ReadsBack tokens)
    (ih : (Phrase.statements body).ReadsBack more) :
    (Phrase.statements (s :: body)).ReadsBack (tokens ++ more) := by
  intro stop rest hstop
  rw [List.forall_mem_append] at hlexical
  obtain ⟨hblock, hcase⟩ := ih stop rest hstop
  have hadmits : Admits s (more ++ stop :: rest) := by
    have hstops : ∀ text, text ∉ stops → text ∉ ["else", "catch", "finally"] :=
      fun text h hmem => h (List.mem_append_right _ hmem)
    cases hbody with
    | nil =>
        have hall : ∀ text ∈ caseStops, text ∉ ["else", "catch", "finally"] := by decide
        exact admits_cons s rest (hall _ hstop)
    | cons hnext _ =>
        obtain ⟨first, tail, rfl, hfirst⟩ := hnext.exists_first fun token hmem =>
          hlexical.2 token (List.mem_append_left _ hmem)
        exact admits_cons s _ (hstops _ hfirst)
  have hread := ihfirst _ hadmits
  obtain ⟨first, tail, rfl, hfirst⟩ := hs.exists_first hlexical.1
  simp only [stops, caseStops, List.mem_append, List.mem_cons, List.not_mem_nil, or_false,
    not_or] at hfirst
  rw [List.cons_append] at hread
  constructor
  · intro hclosing
    rw [List.append_assoc, List.cons_append, outcome_blockBody_cons _ hfirst.1.1, hread,
      Outcome.ok_andThen, hblock hclosing, Outcome.ok_andThen]
  · have hgoes : ¬ endsCase first = true := by simp [endsCase, hfirst]
    rw [List.append_assoc, List.cons_append, outcome_caseBody_cons _ hgoes, hread,
      Outcome.ok_andThen, hcase, Outcome.ok_andThen]

/-- The sections of a switch begin with what ends the statements of a label. -/
theorem Spells.exists_stop {body : SwitchBody} {tokens : List Token}
    (h : Spells (.sections body) tokens) :
    ∃ stop tail, tokens = stop :: tail ∧ stop.lexeme ∈ caseStops := by
  cases h with
  | done hclosing => exact ⟨_, _, rfl, hclosing ▸ by decide⟩
  | label hword _ _ _ _ => exact ⟨_, _, rfl, hword ▸ by decide⟩
  | default hword _ _ _ => exact ⟨_, _, rfl, hword ▸ by decide⟩

theorem caseBody_read {body : List Stmt} {others : SwitchBody} {tokens more : List Token}
    (rest : List Token) (hothers : Spells (.sections others) more)
    (ih : (Phrase.statements body).ReadsBack tokens) :
    (caseBody (tokens ++ (more ++ rest))).outcome = .ok (body, more ++ rest) := by
  obtain ⟨stop, tail, rfl, hstop⟩ := hothers.exists_stop
  exact (ih stop (tail ++ rest) hstop).2

theorem readsBack_clause {word opening name closing : Token} {exception : TypeName}
    {body : List Stmt} {list : List (CatchClause Stmt)} {head tokens more : List Token}
    (hword : word.lexeme = "catch") (hopening : opening.lexeme = "(")
    (htype : SpellsType exception head) (hname : IsName name) (hclosing : closing.lexeme = ")")
    (ihbody : (Phrase.block body).ReadsBack tokens) (ih : (Phrase.clauses list).ReadsBack more) :
    (Phrase.clauses (⟨exception, name.lexeme, body, name.position⟩ :: list)).ReadsBack
      (word :: opening :: (head ++ name :: closing :: (tokens ++ more))) := by
  intro rest hrest
  have hbracket : nextIs "[" (name :: closing :: (tokens ++ (more ++ rest))) = false :=
    hname.nextIs_eq_false _ (by decide)
  have hheader : (catchHeader (opening :: (head ++ name :: closing ::
      (tokens ++ (more ++ rest))))).outcome =
        .ok ((exception, name), tokens ++ (more ++ rest)) := by
    rw [outcome_catchHeader, outcome_expect _ hopening, Outcome.ok_andThen, htype.read hbracket,
      Outcome.ok_andThen, outcome_identifier _ hname.kind, Outcome.ok_andThen,
      outcome_expect _ hclosing, Outcome.ok_andThen]
  have htokens : word :: opening :: (head ++ name :: closing :: (tokens ++ more)) ++ rest =
      word :: opening :: (head ++ name :: closing :: (tokens ++ (more ++ rest))) := by simp
  rw [htokens, outcome_catches_cons _ hword, hheader, Outcome.ok_andThen, ihbody,
    Outcome.ok_andThen, ih rest hrest, Outcome.ok_andThen]

/-- What spells a phrase is read back as it. -/
theorem Spells.readsBack {phrase : Phrase} {tokens : List Token} (h : Spells phrase tokens)
    (hlexical : ∀ token ∈ tokens, token.IsLexical) : phrase.ReadsBack tokens := by
  induction h with
  | simple hsimple hsemicolon => exact readsBack_simple hsimple hsemicolon hlexical
  | print hkind hregular hopening hargs hclosing hsemicolon =>
      exact readsBack_print hkind hregular hopening hargs hclosing hsemicolon hlexical
  | empty hsemicolon => exact fun rest _ => outcome_statement_empty rest hsemicolon
  | @block body tokens hblock ih =>
      intro rest _
      have hread := ih hlexical rest
      cases hblock with
      | @braces opening closing _ inner hopening _ _ =>
          rw [List.cons_append, outcome_block, outcome_expect _ hopening,
            Outcome.ok_andThen] at hread
          rw [List.cons_append, outcome_statement_block _ hopening, hread, Outcome.ok_andThen]
  | @ifThen word e thenBranch head tokens hword he _ ih =>
      simp only [List.forall_mem_cons, List.forall_mem_append] at hlexical
      intro rest hrest
      have hnone := hrest.noElse rfl
      have hthen : Admits thenBranch rest := ⟨fun _ => hnone, hrest.noCatch, hrest.noFinally⟩
      rw [List.cons_append, outcome_statement_if _ hword, List.append_assoc,
        parenthesized_read _ he hlexical.2.1, Outcome.ok_andThen, ih hlexical.2.2 rest hthen,
        Outcome.ok_andThen, hnone, if_neg Bool.false_ne_true]
  | ifElse hword he _ hclosed hother _ ihthen ihelse =>
      simp only [List.forall_mem_cons, List.forall_mem_append] at hlexical
      exact readsBack_ifElse hword he hclosed hother hlexical.2.1 (ihthen hlexical.2.2.1)
        (ihelse hlexical.2.2.2.2)
  | @whileLoop word e body head tokens hword he _ ih =>
      simp only [List.forall_mem_cons, List.forall_mem_append] at hlexical
      intro rest hrest
      have hbody : Admits body rest := ⟨hrest.noElse, hrest.noCatch, hrest.noFinally⟩
      rw [List.cons_append, outcome_statement_while _ hword, List.append_assoc,
        parenthesized_read _ he hlexical.2.1, Outcome.ok_andThen, ih hlexical.2.2 rest hbody,
        Outcome.ok_andThen]
  | doWhile hword _ hagain he hsemicolon ih =>
      simp only [List.forall_mem_cons, List.forall_mem_append] at hlexical
      exact readsBack_doWhile hword hagain he hsemicolon hlexical.2.2.2.1 (ih hlexical.2.1)
  | @forLoop word header body head tokens hword hheader _ ih =>
      simp only [List.forall_mem_cons, List.forall_mem_append] at hlexical
      intro rest hrest
      have hbody : Admits body rest := ⟨hrest.noElse, hrest.noCatch, hrest.noFinally⟩
      rw [List.cons_append, outcome_statement_for _ hword, List.append_assoc,
        hheader.read _ hlexical.2.1, Outcome.ok_andThen, ih hlexical.2.2 rest hbody,
        Outcome.ok_andThen]
  | switch hword he hopening _ ih =>
      simp only [List.forall_mem_cons, List.forall_mem_append] at hlexical
      intro rest _
      rw [List.cons_append, outcome_statement_switch _ hword, List.append_assoc,
        parenthesized_read _ he hlexical.2.1, Outcome.ok_andThen, List.cons_append,
        outcome_expect _ hopening, Outcome.ok_andThen, ih hlexical.2.2.2 rest, Outcome.ok_andThen]
  | @tryCatch word body list tokens more hword _ _ hsome ihbody ihclauses =>
      simp only [List.forall_mem_cons, List.forall_mem_append] at hlexical
      intro rest hrest
      rw [List.cons_append, outcome_statement_try _ hword, List.append_assoc,
        ihbody hlexical.2.1, Outcome.ok_andThen, ihclauses hlexical.2.2 rest hrest.noCatch,
        Outcome.ok_andThen, hrest.noFinally, if_neg Bool.false_ne_true]
      exact if_neg (by simpa using hsome)
  | @tryFinally word last body cleanup list tokens more tail hword _ _ hlast _ ihbody ihclauses
      ihcleanup =>
      simp only [List.forall_mem_cons, List.forall_mem_append] at hlexical
      intro rest _
      have hnone : nextIs "catch" (last :: (tail ++ rest)) = false := by simp [nextIs, hlast]
      have hnext : nextIs "finally" (last :: (tail ++ rest)) = true := decide_eq_true hlast
      rw [List.cons_append, outcome_statement_try _ hword, List.append_assoc,
        ihbody hlexical.2.1, Outcome.ok_andThen, List.append_assoc, List.cons_append,
        ihclauses hlexical.2.2.1 _ hnone, Outcome.ok_andThen, if_pos hnext, List.tail_cons,
        ihcleanup hlexical.2.2.2.2 rest, Outcome.ok_andThen]
  | returns hword hvalue hsemicolon =>
      simp only [List.forall_mem_cons, List.forall_mem_append] at hlexical
      intro rest _
      rw [List.cons_append, outcome_statement_return _ hword, List.append_assoc,
        List.singleton_append, hvalue.read rest hlexical.2.2.1 hsemicolon, Outcome.ok_andThen,
        outcome_expect _ hsemicolon, Outcome.ok_andThen]
  | breaks hword hsemicolon =>
      intro rest _
      rw [List.cons_append, outcome_statement_break _ hword, List.singleton_append,
        outcome_expect _ hsemicolon, Outcome.ok_andThen]
  | continues hword hsemicolon =>
      intro rest _
      rw [List.cons_append, outcome_statement_continue _ hword, List.singleton_append,
        outcome_expect _ hsemicolon, Outcome.ok_andThen]
  | nil =>
      intro stop rest hstop
      have hends : endsCase stop = true := by
        simp only [caseStops, List.mem_cons, List.not_mem_nil, or_false] at hstop
        rcases hstop with hstop | hstop | hstop <;> simp [endsCase, hstop]
      exact ⟨fun hclosing => outcome_blockBody_end rest hclosing, outcome_caseBody_end rest hends⟩
  | cons hs hbody ihfirst ih =>
      have hboth := List.forall_mem_append.mp hlexical
      exact readsBack_cons hs hbody hlexical (ihfirst hboth.1) (ih hboth.2)
  | @braces opening closing body tokens hopening _ hclosing ih =>
      simp only [List.forall_mem_cons, List.forall_mem_append] at hlexical
      intro rest
      have hread := (ih hlexical.2.1 closing rest (hclosing ▸ by decide)).1 hclosing
      rw [List.cons_append, outcome_block, outcome_expect _ hopening, Outcome.ok_andThen,
        List.append_assoc, List.singleton_append, hread]
  | noClause => exact fun rest hrest => outcome_catches_stop hrest
  | clause hword hopening htype hname hclosing _ _ ihbody ih =>
      simp only [List.forall_mem_cons, List.forall_mem_append] at hlexical
      exact readsBack_clause hword hopening htype hname hclosing
        (ihbody hlexical.2.2.2.2.2.1) (ih hlexical.2.2.2.2.2.2)
  | done hclosing => exact fun rest => outcome_switchBody_end rest hclosing
  | @label word colon value body others head tokens more hword he hcolon _ hothers ihbody ih =>
      simp only [List.forall_mem_cons, List.forall_mem_append] at hlexical
      obtain ⟨-, -, hcolonLex, htokens, hmore⟩ := hlexical
      intro rest
      have hends := endsExpression_of_mem (tokens ++ (more ++ rest)) hcolonLex (hcolon ▸ by decide)
      rw [List.cons_append, outcome_switchBody_case _ hword, List.append_assoc, List.cons_append,
        List.append_assoc, he.read hends, Outcome.ok_andThen, outcome_expect _ hcolon,
        Outcome.ok_andThen, caseBody_read rest hothers (ihbody htokens), Outcome.ok_andThen,
        ih hmore rest, Outcome.ok_andThen]
  | @default word colon body others tokens more hword hcolon _ hothers ihbody ih =>
      simp only [List.forall_mem_cons, List.forall_mem_append] at hlexical
      intro rest
      rw [List.cons_append, List.cons_append, outcome_switchBody_default _ hword, List.append_assoc,
        outcome_expect _ hcolon, Outcome.ok_andThen,
        caseBody_read rest hothers (ihbody hlexical.2.2.1), Outcome.ok_andThen,
        ih hlexical.2.2.2 rest, Outcome.ok_andThen]

theorem param_read {p : Param} {tokens rest : List Token} (h : SpellsParam p tokens) :
    (param (tokens ++ rest)).outcome = .ok (p, rest) := by
  cases h with
  | mk htype hname =>
      rw [outcome_param, List.append_assoc, List.singleton_append,
        htype.read (hname.nextIs_eq_false _ (by decide)), Outcome.ok_andThen,
        outcome_identifier _ hname.kind, Outcome.ok_andThen]

theorem SpellsParam.exists_first {p : Param} {tokens : List Token} (h : SpellsParam p tokens) :
    ∃ first tail, tokens = first :: tail ∧ first.lexeme ∉ openers := by
  cases h with
  | mk htype _ =>
      obtain ⟨head, tail, rfl, hopens, -⟩ := htype.exists_first
      exact ⟨head, _, rfl, hopens⟩

theorem params_read {list : List Param} {tokens : List Token} (h : Listed SpellsParam list tokens)
    (hlexical : ∀ token ∈ tokens, token.IsLexical) {next : Token} (rest : List Token)
    (hnext : next.IsLexical) (hmark : next.lexeme = ")") :
    (paramsUnless ")" (tokens ++ next :: rest)).outcome = .ok (list, next :: rest) := by
  rw [outcome_paramsUnless]
  exact h.read (fun tokens => (param tokens).outcome) (fun tokens => (params tokens).outcome)
    outcome_params (fun _ _ _ _ hparam _ _ => param_read hparam)
    (fun _ _ hparam => hparam.exists_first) hlexical rest hnext hmark

theorem SpellsMethod.read {decl : Method} {tokens : List Token} (rest : List Token)
    (h : SpellsMethod decl tokens) (hlexical : ∀ token ∈ tokens, token.IsLexical) :
    ∃ name opening tail, tokens = name :: opening :: tail ∧ IsName name ∧
      opening.lexeme = "(" ∧ name.lexeme = decl.name ∧
      (method decl.modifiers decl.returnType name (opening :: tail ++ rest)).outcome =
        .ok (decl, rest) := by
  cases h with
  | @mk name opening closing modifiers returnType params body head tokens hname hopening hparams
      hclosing hbody =>
      simp only [List.forall_mem_cons, List.forall_mem_append] at hlexical
      obtain ⟨-, -, hhead, hmark, htokens⟩ := hlexical
      refine ⟨name, opening, _, rfl, hname, hopening, rfl, ?_⟩
      have hread : (block (tokens ++ rest)).outcome = .ok (body, rest) :=
        hbody.readsBack htokens rest
      rw [outcome_method, List.cons_append, outcome_expect _ hopening, Outcome.ok_andThen,
        List.append_assoc, List.cons_append, params_read hparams hhead _ hmark hclosing,
        Outcome.ok_andThen, outcome_expect _ hclosing, Outcome.ok_andThen, hread,
        Outcome.ok_andThen]

def BeginsMember (tokens : List Token) : Prop :=
  ∃ first tail, tokens = first :: tail ∧ first.lexeme ∉ ["\x7d", ";"]

theorem SpellsModifiers.begins {mods : List Modifier} {words : List Token} {first : Token}
    (tail : List Token) (h : SpellsModifiers mods words) (hfirst : first.lexeme ∉ ["\x7d", ";"]) :
    BeginsMember (words ++ first :: tail) := by
  cases h with
  | nil => exact ⟨first, tail, rfl, hfirst⟩
  | @cons modifier word _ _ hword _ =>
      refine ⟨word, _, rfl, ?_⟩
      have hall : ∀ text ∈ ["\x7d", ";"], text ∈ symbols.map Prod.fst := by decide
      rw [hword]
      exact fun hmem => modifier_ne_mark modifier (hall _ hmem) rfl

theorem begins_of_opener {first : Token} (h : first.lexeme ∉ openers) :
    first.lexeme ∉ ["\x7d", ";"] := by
  have hall : ∀ text ∈ ["\x7d", ";"], text ∈ openers := by decide
  exact fun hmem => h (hall _ hmem)

theorem members_read {className : String} {m : Member} {list : List Member}
    {tokens more whole : List Token} (rest : List Token) (hbegins : BeginsMember tokens)
    (hmember : (member className (tokens ++ (more ++ rest))).outcome = .ok (m, more ++ rest))
    (hmore : (members className (more ++ rest)).outcome = .ok (list, rest))
    (hwhole : whole = tokens ++ (more ++ rest)) :
    (members className whole).outcome = .ok (m :: list, rest) := by
  obtain ⟨first, tail, rfl, hfirst⟩ := hbegins
  subst hwhole
  simp only [List.mem_cons, List.not_mem_nil, or_false, not_or] at hfirst
  rw [List.cons_append] at hmember ⊢
  rw [outcome_members_cons className _ hfirst.1 hfirst.2, hmember, Outcome.ok_andThen, hmore,
    Outcome.ok_andThen]

/-- A member behind its modifiers that is not a class. -/
theorem member_read {className : String} {mods : List Modifier} {words : List Token}
    {first : Token} (tail : List Token) (hwords : SpellsModifiers mods words)
    (hfirst : first.lexeme ∉ openers) :
    (member className (words ++ first :: tail)).outcome =
      (methodOrField className mods (first :: tail)).outcome := by
  obtain ⟨hvalue, hbehind⟩ := hwords.read tail (ofWord?_of_not_mem hfirst)
  rw [outcome_member, hvalue, hbehind, nextIs_eq_false tail hfirst (by decide),
    if_neg Bool.false_ne_true]

/-- A type with a name behind it begins no constructor. -/
theorem beginsConstructor_eq_false {className : String} {type : TypeName} {head : List Token}
    {name : Token} (tail : List Token) (htype : SpellsType type head) (hname : IsName name) :
    beginsConstructor className (head ++ name :: tail) = false := by
  have hparenthesis : name.lexeme ≠ "(" :=
    hname.lexeme_ne (by decide)
  cases htype with
  | mk _ _ hdims =>
      cases hdims with
      | none => simp [beginsConstructor, hparenthesis]
      | more hleft _ _ => simp [beginsConstructor, hleft]

def ClassPhrase.ReadsBack : ClassPhrase → List Token → Prop
  | .decl d, tokens => ∀ rest, (classDecl d.modifiers (tokens ++ rest)).outcome = .ok (d, rest)
  | .members className list, tokens => ∀ rest,
      (Grammar.members className (tokens ++ rest)).outcome = .ok (list, rest)

section Members

variable {className : String} {list : List Member} {words tokens more : List Token}

theorem readsBack_field {decl : VarDecl} {semicolon : Token} (hdecl : SpellsVariable decl tokens)
    (hsemicolon : semicolon.lexeme = ";") (hmark : semicolon.IsLexical)
    (ih : (ClassPhrase.members className list).ReadsBack more) :
    (ClassPhrase.members className (.field decl :: list)).ReadsBack
      (tokens ++ semicolon :: more) := by
  intro rest
  cases hdecl with
  | @mk mods type name init words head tail hwords htype hname hinit =>
      obtain ⟨first, others, hhead, hopens, -⟩ := htype.exists_first
      have hbegins : BeginsMember (words ++ (head ++ name :: tail) ++ [semicolon]) := by
        rw [hhead, List.append_assoc]
        exact hwords.begins _ (begins_of_opener hopens)
      have hnext : nextIs "(" (tail ++ semicolon :: (more ++ rest)) = false := by
        cases hinit with
        | none => simp [nextIs, hsemicolon]
        | some hsign _ => simp [nextIs, hsign]
      have hbracket : nextIs "[" (name :: (tail ++ semicolon :: (more ++ rest))) = false :=
        hname.nextIs_eq_false _ (by decide)
      have hread : (member className
          (words ++ (head ++ name :: tail) ++ [semicolon] ++ (more ++ rest))).outcome =
          .ok (.field ⟨mods, type, name.lexeme, init, name.position⟩, more ++ rest) := by
        have htokens : words ++ (head ++ name :: tail) ++ [semicolon] ++ (more ++ rest) =
            words ++ (head ++ name :: (tail ++ semicolon :: (more ++ rest))) := by simp
        have hmember : (member className
            (words ++ (head ++ name :: (tail ++ semicolon :: (more ++ rest))))).outcome =
            (methodOrField className mods
              (head ++ name :: (tail ++ semicolon :: (more ++ rest)))).outcome := by
          rw [hhead]
          exact member_read _ hwords hopens
        rw [htokens, hmember, outcome_methodOrField, beginsConstructor_eq_false _ htype hname,
          if_neg Bool.false_ne_true, outcome_typedMember, htype.read hbracket, Outcome.ok_andThen,
          outcome_identifier _ hname.kind, Outcome.ok_andThen, hnext, if_neg Bool.false_ne_true,
          outcome_declarator, hinit.read _ hmark (hsemicolon ▸ by decide), Outcome.ok_andThen,
          Outcome.ok_andThen, outcome_expect _ hsemicolon, Outcome.ok_andThen]
      exact members_read rest hbegins hread (ih rest) (by simp)

theorem readsBack_method {decl : Method} {type : TypeName} {head : List Token}
    (hwords : SpellsModifiers decl.modifiers words) (hreturn : decl.returnType = some type)
    (htype : SpellsType type head) (hdecl : SpellsMethod decl tokens)
    (hlexical : ∀ token ∈ tokens, token.IsLexical)
    (ih : (ClassPhrase.members className list).ReadsBack more) :
    (ClassPhrase.members className (.method decl :: list)).ReadsBack
      (words ++ (head ++ (tokens ++ more))) := by
  intro rest
  obtain ⟨first, others, hhead, hopens, -⟩ := htype.exists_first
  obtain ⟨name, opening, tail, rfl, hname, hopening, -, hmethod⟩ :=
    hdecl.read (more ++ rest) hlexical
  have hbegins : BeginsMember (words ++ (head ++ name :: opening :: tail)) := by
    rw [hhead]
    exact hwords.begins _ (begins_of_opener hopens)
  have hbracket : nextIs "[" (name :: (opening :: tail ++ (more ++ rest))) = false :=
    hname.nextIs_eq_false _ (by decide)
  have hnext : nextIs "(" (opening :: tail ++ (more ++ rest)) = true := decide_eq_true hopening
  have hread : (member className
      (words ++ (head ++ name :: opening :: tail) ++ (more ++ rest))).outcome =
      .ok (.method decl, more ++ rest) := by
    have htokens : words ++ (head ++ name :: opening :: tail) ++ (more ++ rest) =
        words ++ (head ++ name :: (opening :: tail ++ (more ++ rest))) := by simp
    have hmember : (member className
        (words ++ (head ++ name :: (opening :: tail ++ (more ++ rest))))).outcome =
        (methodOrField className decl.modifiers
          (head ++ name :: (opening :: tail ++ (more ++ rest)))).outcome := by
      rw [hhead]
      exact member_read _ hwords hopens
    rw [hreturn] at hmethod
    rw [htokens, hmember, outcome_methodOrField, beginsConstructor_eq_false _ htype hname,
      if_neg Bool.false_ne_true, outcome_typedMember, htype.read hbracket, Outcome.ok_andThen,
      outcome_identifier _ hname.kind, Outcome.ok_andThen, hnext, if_pos rfl, hmethod,
      Outcome.ok_andThen]
  exact members_read rest hbegins hread (ih rest) (by simp)

theorem readsBack_constructor {decl : Method} (hwords : SpellsModifiers decl.modifiers words)
    (hreturn : decl.returnType = none) (hclass : decl.name = className)
    (hdecl : SpellsMethod decl tokens) (hlexical : ∀ token ∈ tokens, token.IsLexical)
    (ih : (ClassPhrase.members className list).ReadsBack more) :
    (ClassPhrase.members className (.method decl :: list)).ReadsBack
      (words ++ (tokens ++ more)) := by
  intro rest
  obtain ⟨name, opening, tail, rfl, hname, hopening, hlexeme, hmethod⟩ :=
    hdecl.read (more ++ rest) hlexical
  have hopens := hname.not_mem_openers
  have hbegins : BeginsMember (words ++ name :: opening :: tail) :=
    hwords.begins _ (begins_of_opener hopens)
  have hconstructor : beginsConstructor className
      (name :: (opening :: tail ++ (more ++ rest))) = true := by
    simp [beginsConstructor, hopening, hlexeme, hclass]
  have hread : (member className
      (words ++ name :: opening :: tail ++ (more ++ rest))).outcome =
      .ok (.method decl, more ++ rest) := by
    have htokens : words ++ name :: opening :: tail ++ (more ++ rest) =
        words ++ name :: (opening :: tail ++ (more ++ rest)) := by simp
    rw [hreturn] at hmethod
    rw [htokens, member_read _ hwords hopens, outcome_methodOrField, hconstructor, if_pos rfl,
      outcome_constructor, outcome_identifier _ hname.kind, Outcome.ok_andThen, hmethod,
      Outcome.ok_andThen]
  exact members_read rest hbegins hread (ih rest) (by simp)

end Members

/-- A class behind its modifiers begins with its keyword. -/
theorem SpellsClass.exists_class {decl : ClassDecl} {tokens : List Token}
    (h : SpellsClass (.decl decl) tokens) :
    ∃ word tail, tokens = word :: tail ∧ word.lexeme = "class" := by
  cases h with
  | decl hword _ _ _ => exact ⟨_, _, rfl, hword⟩

/-- A class with its modifiers, as an item or a member. -/
theorem modifiedClass_read {decl : ClassDecl} {words tokens : List Token} (rest : List Token)
    (hwords : SpellsModifiers decl.modifiers words) (h : SpellsClass (.decl decl) tokens)
    (ih : (ClassPhrase.decl decl).ReadsBack tokens) :
    nextIs "class" (modifiers (words ++ (tokens ++ rest))).rest = true ∧
      (classDecl (modifiers (words ++ (tokens ++ rest))).value
        (modifiers (words ++ (tokens ++ rest))).rest).outcome = .ok (decl, rest) := by
  have hread := ih rest
  obtain ⟨word, tail, rfl, hword⟩ := h.exists_class
  rw [List.cons_append] at hread ⊢
  have hnone : Modifier.ofWord? word.lexeme = none := by rw [hword]; decide
  obtain ⟨hvalue, hbehind⟩ := hwords.read (tail ++ rest) hnone
  rw [hvalue, hbehind]
  exact ⟨decide_eq_true hword, hread⟩

/-- What spells a class is read back as it. -/
theorem SpellsClass.readsBack {phrase : ClassPhrase} {tokens : List Token}
    (h : SpellsClass phrase tokens) (hlexical : ∀ token ∈ tokens, token.IsLexical) :
    phrase.ReadsBack tokens := by
  induction h with
  | decl hword hname hopening _ ih =>
      simp only [List.forall_mem_cons] at hlexical
      intro rest
      have hmembers := ih hlexical.2.2.2 rest
      rw [List.cons_append, List.cons_append, List.cons_append, outcome_classDecl,
        outcome_expect _ hword, Outcome.ok_andThen, outcome_identifier _ hname.kind,
        Outcome.ok_andThen, outcome_expect _ hopening, Outcome.ok_andThen, hmembers,
        Outcome.ok_andThen]
  | done hclosing => exact fun rest => outcome_members_end _ rest hclosing
  | skip hsemicolon _ ih =>
      intro rest
      rw [List.cons_append, outcome_members_skip _ _ hsemicolon]
      exact ih (List.forall_mem_cons.mp hlexical).2 rest
  | field hdecl hsemicolon _ ih =>
      simp only [List.forall_mem_cons, List.forall_mem_append] at hlexical
      exact readsBack_field hdecl hsemicolon hlexical.2.1 (ih hlexical.2.2)
  | method hwords hreturn htype hdecl _ ih =>
      simp only [List.forall_mem_append] at hlexical
      exact readsBack_method hwords hreturn htype hdecl hlexical.2.2.1 (ih hlexical.2.2.2)
  | constructor hwords hreturn hclass hdecl _ ih =>
      simp only [List.forall_mem_append] at hlexical
      exact readsBack_constructor hwords hreturn hclass hdecl hlexical.2.1 (ih hlexical.2.2)
  | @nested className decl list words tokens more hwords hdecl _ ihdecl ih =>
      simp only [List.forall_mem_append] at hlexical
      intro rest
      have hboth := modifiedClass_read (more ++ rest) hwords hdecl (ihdecl hlexical.2.1)
      have hbegins : BeginsMember (words ++ tokens) := by
        obtain ⟨word, tail, rfl, hword⟩ := hdecl.exists_class
        exact hwords.begins tail (by rw [hword]; decide)
      have hread : (member className (words ++ tokens ++ (more ++ rest))).outcome =
          .ok (.nested decl, more ++ rest) := by
        rw [List.append_assoc, outcome_member, if_pos hboth.1, hboth.2, Outcome.ok_andThen]
      exact members_read rest hbegins hread (ih hlexical.2.2 rest) (by simp)

/-- No item begins with a word that continues a statement. -/
theorem SpellsItems.admits {list : List Item} {tokens : List Token} (s : Stmt)
    (h : SpellsItems list tokens) (hlexical : ∀ token ∈ tokens, token.IsLexical) :
    Admits s tokens := by
  cases h with
  | nil => exact ⟨fun _ => rfl, rfl, rfl⟩
  | @declaration decl _ words tokens more hwords hdecl _ =>
      unfold SpellsModifiers at hwords
      generalize decl.modifiers = mods at hwords
      cases hwords with
      | nil =>
          obtain ⟨word, tail, rfl, hword⟩ := hdecl.exists_class
          exact admits_cons s _ (by rw [hword]; decide)
      | @cons modifier word _ _ hword _ =>
          refine admits_cons s _ ?_
          rw [hword]
          cases modifier <;> decide
  | statement hs _ =>
      obtain ⟨first, tail, rfl, hfirst⟩ := hs.exists_first fun token hmem =>
        hlexical token (List.mem_append_left _ hmem)
      exact admits_cons s _ fun hmem => hfirst (List.mem_append_right _ hmem)

/-- A table that spells a program is accepted, and as that program. -/
theorem SpellsItems.read {list : List Item} {tokens : List Token} (h : SpellsItems list tokens)
    (hlexical : ∀ token ∈ tokens, token.IsLexical) : items tokens = .ok list := by
  have hcons : ∀ {i : Item} {list : List Item} {tokens more : List Token}, tokens ≠ [] →
      (item (tokens ++ more)).outcome = .ok (i, more) → items more = .ok list →
      items (tokens ++ more) = .ok (i :: list) := by
    intro i list tokens more hsome hitem hmore
    obtain ⟨first, tail, rfl⟩ := List.exists_cons_of_ne_nil hsome
    rw [List.cons_append] at hitem ⊢
    rw [items_cons, hitem]
    exact congrArg (Except.map (i :: ·)) hmore
  induction h with
  | nil => exact items_nil
  | @declaration decl list words tokens more hwords hdecl _ ih =>
      simp only [List.forall_mem_append] at hlexical
      have hboth := modifiedClass_read more hwords hdecl (hdecl.readsBack hlexical.2.1)
      rw [← List.append_assoc]
      refine hcons ?_ ?_ (ih hlexical.2.2)
      · obtain ⟨word, tail, rfl, -⟩ := hdecl.exists_class
        simp
      · rw [List.append_assoc, outcome_item, if_pos hboth.1, hboth.2, Outcome.ok_andThen]
  | @statement s list tokens more hs hmore ih =>
      simp only [List.forall_mem_append] at hlexical
      refine hcons ?_ ?_ (ih hlexical.2)
      · obtain ⟨first, tail, rfl, -⟩ := hs.exists_first hlexical.1
        exact List.cons_ne_nil _ _
      · have hread : (Grammar.statement (tokens ++ more)).outcome = .ok (s, more) :=
          hs.readsBack hlexical.1 more (hmore.admits s hlexical.2)
        rw [outcome_item, hs.no_class more hlexical.1, if_neg Bool.false_ne_true, hread,
          Outcome.ok_andThen]

end MiniJava.Grammar

namespace MiniJava.Program

open Grammar

/-- The parser accepts just the tables that the grammar spells, as what they spell. -/
theorem ofTokens_eq_ok_iff {tokens : List Token} (htable : IsTable tokens) (program : Program) :
    ofTokens tokens = .ok program ↔ SpellsItems program.items tokens := by
  refine ⟨spellsItems_of_ofTokens htable, fun h => ?_⟩
  have hread := h.read htable.lexical
  simp [ofTokens, hread, Except.map]

end MiniJava.Program
