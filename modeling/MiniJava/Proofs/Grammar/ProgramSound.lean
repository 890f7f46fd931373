import MiniJava.Proofs.Grammar.DeclarationSound

/-!
# Statements and classes are spelled by what is read

Each production of the reader takes the tokens of one rule of the grammar. The reader of statements
takes an `else` whenever one is next, so an `if` is left open only where no `else` follows.
-/

namespace MiniJava.Grammar

def TookStatement (s : Stmt) (read rest : List Token) : Prop :=
  Spells (.statement s) read ∧ (s.endsOpen = true → nextIs "else" rest = false)

def TookClauses (list : List (CatchClause Stmt)) (read _rest : List Token) : Prop :=
  Spells (.clauses list) read

def TookBlock (body : List Stmt) (read _rest : List Token) : Prop := Spells (.block body) read

def TookBody (body : List Stmt) (read _rest : List Token) : Prop :=
  ∃ tokens closing, read = tokens ++ [closing] ∧ Spells (.statements body) tokens ∧
    closing.lexeme = "\x7d"

def TookSections (body : SwitchBody) (read _rest : List Token) : Prop :=
  Spells (.sections body) read

def TookStatements (body : List Stmt) (read _rest : List Token) : Prop :=
  Spells (.statements body) read

/-- A statement that no `else` behind it can become part of. -/
theorem TookStatement.closed {s : Stmt} {read rest : List Token} (h : Spells (.statement s) read)
    (hclosed : s.endsOpen = false) : TookStatement s read rest := by
  refine ⟨h, fun hopen => ?_⟩
  rw [hclosed] at hopen
  cases hopen

theorem takes_if {token : Token} {rest : List Token} (hword : token.lexeme = "if")
    (ih : ∀ tail : List Token, tail.length < rest.length + 1 →
      Takes tail (statement tail).outcome TookStatement) :
    Takes (token :: rest) (statement (token :: rest)).outcome TookStatement := by
  rw [outcome_statement_if rest hword]
  refine .cons ((takes_parenthesized rest).andThen fun e head behind _ hle he => ?_)
  have hthen := ih behind (Nat.lt_succ_of_le hle)
  refine hthen.andThen fun thenBranch tokens tail _ hshorter hbranch => ?_
  obtain ⟨hspells, hopen⟩ := hbranch
  split
  · next hnext =>
      refine .seen (by decide) hnext fun other hother _ => ?_
      have hclosed : thenBranch.endsOpen = false := by
        refine Bool.eq_false_iff.mpr fun htrue => ?_
        rw [hopen htrue] at hnext
        cases hnext
      have htail : tail.tail.length ≤ tail.length := by simp
      have helse := ih tail.tail (by omega)
      exact helse.map fun elseBranch more left hmore =>
        ⟨.ifElse hword he hspells hclosed hother hmore.1, hmore.2⟩
  · next hnext =>
      refine .pure ⟨?_, fun _ => by simpa using hnext⟩
      rw [List.append_nil]
      exact .ifThen hword he hspells

theorem takes_while {token : Token} {rest : List Token} (hword : token.lexeme = "while")
    (ih : ∀ tail : List Token, tail.length < rest.length + 1 →
      Takes tail (statement tail).outcome TookStatement) :
    Takes (token :: rest) (statement (token :: rest)).outcome TookStatement := by
  rw [outcome_statement_while rest hword]
  refine .cons ((takes_parenthesized rest).andThen fun e head behind _ hle he => ?_)
  have hbody := ih behind (Nat.lt_succ_of_le hle)
  exact hbody.map fun body tokens left h => ⟨.whileLoop hword he h.1, h.2⟩

theorem takes_do {token : Token} {rest : List Token} (hword : token.lexeme = "do")
    (ih : Takes rest (statement rest).outcome TookStatement) :
    Takes (token :: rest) (statement (token :: rest)).outcome TookStatement := by
  rw [outcome_statement_do rest hword]
  refine .cons (ih.andThen fun body tokens rest _ _ hbody => ?_)
  refine .mark (by decide) fun again rest _ hagain _ => ?_
  refine (takes_parenthesized rest).andThen fun e tail rest _ _ he => ?_
  refine .mark (by decide) fun semicolon rest _ hsemicolon _ => .pure ?_
  exact .closed (.doWhile hword hbody.1 hagain he hsemicolon) rfl

theorem takes_forHeader (tokens : List Token) :
    Takes tokens (forHeader tokens).outcome fun header read _ => SpellsHeader header read := by
  rw [outcome_forHeader]
  refine .mark (by decide) fun opening rest _ hopening _ => ?_
  refine (takes_forInit rest).andThen fun init start rest _ _ hinit => ?_
  refine .mark (by decide) fun first rest _ hfirst hbehindInit => ?_
  refine (takes_expressionUnless ";" rest).andThen fun condition head rest _ _ hcondition => ?_
  refine .mark (by decide) fun second rest _ hsecond hbehindCondition => ?_
  refine (takes_expressionsUnless ")" rest).andThen fun update tail rest _ _ hupdate => ?_
  refine .mark (by decide) fun closing rest _ hclosing hbehindUpdate => .pure ?_
  exact .mk hopening (hinit hbehindInit) hfirst (hcondition hbehindCondition) hsecond
    (hupdate hbehindUpdate) hclosing

theorem takes_for {token : Token} {rest : List Token} (hword : token.lexeme = "for")
    (ih : ∀ tail : List Token, tail.length < rest.length + 1 →
      Takes tail (statement tail).outcome TookStatement) :
    Takes (token :: rest) (statement (token :: rest)).outcome TookStatement := by
  rw [outcome_statement_for rest hword]
  refine .cons ((takes_forHeader rest).andThen fun header head behind _ hle hheader => ?_)
  have hbody := ih behind (Nat.lt_succ_of_le hle)
  exact hbody.map fun body tokens left h => ⟨.forLoop hword hheader h.1, h.2⟩

theorem takes_switch {token : Token} {rest : List Token} (hword : token.lexeme = "switch")
    (ih : ∀ tail : List Token, tail.length < rest.length + 1 →
      Takes tail (switchBody tail).outcome TookSections) :
    Takes (token :: rest) (statement (token :: rest)).outcome TookStatement := by
  rw [outcome_statement_switch rest hword]
  refine .cons ((takes_parenthesized rest).andThen fun e head behind _ hle he => ?_)
  refine .mark (by decide) fun opening tail hshorter hopening _ => ?_
  have hbody := ih tail (by omega)
  exact hbody.map fun body tokens left h => .closed (.switch hword he hopening h) rfl

theorem takes_try {token : Token} {rest : List Token} (hword : token.lexeme = "try")
    (ihbody : Takes rest (block rest).outcome TookBlock)
    (ihclauses : ∀ tail : List Token, tail.length < rest.length + 1 →
      Takes tail (catches tail).outcome TookClauses)
    (ihcleanup : ∀ tail : List Token, tail.length < rest.length + 1 →
      Takes tail (block tail).outcome TookBlock) :
    Takes (token :: rest) (statement (token :: rest)).outcome TookStatement := by
  rw [outcome_statement_try rest hword]
  refine .cons (ihbody.andThen fun body tokens behind _ hle hbody => ?_)
  have hclauses := ihclauses behind (Nat.lt_succ_of_le hle)
  refine hclauses.andThen fun list more tail _ hshorter hlist => ?_
  split
  · next hnext =>
      refine .seen (by decide) hnext fun last hlast _ => ?_
      have htail : tail.tail.length ≤ tail.length := by simp
      have hcleanup := ihcleanup tail.tail (by omega)
      exact hcleanup.map fun cleanup read left h =>
        .closed (.tryFinally hword hbody hlist hlast h) rfl
  · split
    · exact .error _
    · next hnonempty =>
        refine .pure (.closed ?_ rfl)
        rw [List.append_nil]
        exact .tryCatch hword hbody hlist (by simpa using hnonempty)

theorem takes_return {token : Token} (rest : List Token) (hword : token.lexeme = "return") :
    Takes (token :: rest) (statement (token :: rest)).outcome TookStatement := by
  rw [outcome_statement_return rest hword]
  refine .cons ((takes_expressionUnless ";" rest).andThen fun value tokens rest _ _ hvalue => ?_)
  refine .mark (by decide) fun semicolon rest _ hsemicolon hkeeps => .pure ?_
  exact .closed (.returns hword (hvalue hkeeps) hsemicolon) rfl

theorem takes_break {token : Token} (rest : List Token) (hword : token.lexeme = "break") :
    Takes (token :: rest) (statement (token :: rest)).outcome TookStatement := by
  rw [outcome_statement_break rest hword]
  exact .cons (.mark (by decide) fun semicolon rest _ hsemicolon _ =>
    .pure (.closed (.breaks hword hsemicolon) rfl))

theorem takes_continue {token : Token} (rest : List Token) (hword : token.lexeme = "continue") :
    Takes (token :: rest) (statement (token :: rest)).outcome TookStatement := by
  rw [outcome_statement_continue rest hword]
  exact .cons (.mark (by decide) fun semicolon rest _ hsemicolon _ =>
    .pure (.closed (.continues hword hsemicolon) rfl))

theorem takes_print {call : Token} (rest : List Token) (hkind : call.kind = .printCall)
    (hother : call.lexeme ∉ statementLexemes) :
    Takes (call :: rest) (statement (call :: rest)).outcome TookStatement := by
  rw [outcome_statement_other rest hother, if_pos hkind, outcome_printCall]
  intro htable
  have hregular := regular_of_kind htable.head (by simp [hkind])
  refine Takes.cons (.mark (by decide) fun opening rest _ hopening _ => ?_) htable
  refine (takes_expressionsUnless ")" rest).andThen fun args tokens rest _ _ hargs => ?_
  refine .mark (by decide) fun closing rest _ hclosing hkeeps => ?_
  refine .mark (by decide) fun semicolon rest _ hsemicolon _ => .pure ?_
  exact .closed (.print hkind hregular hopening (hargs hkeeps) hclosing hsemicolon) rfl

theorem SpellsSimple.endsOpen {s : Stmt} {tokens : List Token} (h : SpellsSimple s tokens) :
    s.endsOpen = false := by
  cases h <;> rfl

theorem takes_simple {token : Token} (rest : List Token) (hkind : token.kind ≠ .printCall)
    (hother : token.lexeme ∉ statementLexemes) :
    Takes (token :: rest) (statement (token :: rest)).outcome TookStatement := by
  rw [outcome_statement_other rest hother, if_neg hkind]
  refine (takes_declarationOrExpression _).andThen fun s tokens rest _ _ hs => ?_
  refine .mark (by decide) fun semicolon rest _ hsemicolon hkeeps => .pure ?_
  exact .closed (.simple (hs hkeeps) hsemicolon) (hs hkeeps).endsOpen

theorem takes_catchHeader (tokens : List Token) : Takes tokens (catchHeader tokens).outcome
    fun header read _ => ∃ opening head closing, read = opening :: (head ++ header.2 :: [closing]) ∧
      opening.lexeme = "(" ∧ SpellsType header.1 head ∧ IsName header.2 ∧
      closing.lexeme = ")" := by
  rw [outcome_catchHeader]
  refine .mark (by decide) fun opening rest _ hopening _ => ?_
  refine (takes_typeName rest).andThen fun exception head rest _ _ htype => ?_
  refine .name fun name rest _ hname hbefore => ?_
  refine .mark (by decide) fun closing rest _ hclosing hkeeps => .pure ?_
  exact ⟨opening, head, closing, rfl, hopening, htype hbefore, hname hkeeps, hclosing⟩

theorem takes_clause {token : Token} {rest : List Token} (hword : token.lexeme = "catch")
    (ihbody : ∀ tail : List Token, tail.length < rest.length + 1 →
      Takes tail (block tail).outcome TookBlock)
    (ihclauses : ∀ tail : List Token, tail.length < rest.length + 1 →
      Takes tail (catches tail).outcome TookClauses) :
    Takes (token :: rest) (catches (token :: rest)).outcome TookClauses := by
  rw [outcome_catches_cons rest hword]
  refine .cons ((takes_catchHeader rest).andThen fun header read behind _ hle hparts => ?_)
  obtain ⟨opening, head, closing, rfl, hopening, htype, hname, hclosing⟩ := hparts
  have hbody := ihbody behind (Nat.lt_succ_of_le hle)
  refine hbody.andThen fun body tokens tail _ hshorter hspells => ?_
  have hclauses := ihclauses tail (by omega)
  refine hclauses.map fun list more left hlist => ?_
  have hclause := Spells.clause hword hopening htype hname hclosing hspells hlist
  simpa [TookClauses] using hclause

theorem takes_block {tokens : List Token} (ih : ∀ rest : List Token, rest.length < tokens.length →
      Takes rest (blockBody rest).outcome TookBody) :
    Takes tokens (block tokens).outcome TookBlock := by
  rw [outcome_block]
  cases tokens with
  | nil => exact .error _
  | cons opening tokens =>
      by_cases hopening : opening.lexeme = "\x7b"
      · rw [outcome_expect tokens hopening, Outcome.ok_andThen]
        refine .cons ((ih tokens (Nat.lt_succ_self _)).mono fun body read rest h => ?_)
        obtain ⟨inner, closing, rfl, hspells, hclosing⟩ := h
        exact .braces hopening hspells hclosing
      · rw [outcome_expect_cons, if_neg hopening]
        exact .error _

theorem takes_blockBody {token : Token} {rest : List Token} (hend : token.lexeme ≠ "\x7d")
    (ih : Takes (token :: rest) (statement (token :: rest)).outcome TookStatement)
    (ihrest : ∀ tail : List Token, tail.length < (token :: rest).length →
      Takes tail (blockBody tail).outcome TookBody) :
    Takes (token :: rest) (blockBody (token :: rest)).outcome TookBody := by
  rw [outcome_blockBody_cons rest hend]
  refine ih.andThen fun s tokens tail hfirst _ hs => ?_
  have hrest := ihrest tail (Reading.length_lt_of_outcome hfirst)
  refine hrest.map fun body read left h => ?_
  obtain ⟨inner, closing, rfl, hspells, hclosing⟩ := h
  exact ⟨tokens ++ inner, closing, (List.append_assoc ..).symm, .cons hs.1 hspells, hclosing⟩

theorem takes_caseBody {token : Token} {rest : List Token} (hend : ¬ endsCase token = true)
    (ih : Takes (token :: rest) (statement (token :: rest)).outcome TookStatement)
    (ihrest : ∀ tail : List Token, tail.length < (token :: rest).length →
      Takes tail (caseBody tail).outcome TookStatements) :
    Takes (token :: rest) (caseBody (token :: rest)).outcome TookStatements := by
  rw [outcome_caseBody_cons rest hend]
  refine ih.andThen fun s tokens tail hfirst _ hs => ?_
  have hrest := ihrest tail (Reading.length_lt_of_outcome hfirst)
  exact hrest.map fun body read left h => .cons hs.1 h

theorem takes_case {token : Token} {rest : List Token} (hword : token.lexeme = "case")
    (ihbody : ∀ tail : List Token, tail.length < rest.length + 1 →
      Takes tail (caseBody tail).outcome TookStatements)
    (ihrest : ∀ tail : List Token, tail.length < rest.length + 1 →
      Takes tail (switchBody tail).outcome TookSections) :
    Takes (token :: rest) (switchBody (token :: rest)).outcome TookSections := by
  rw [outcome_switchBody_case rest hword]
  refine .cons ((takes_expression rest).andThen fun value head behind _ hle hvalue => ?_)
  refine .mark (by decide) fun colon tail hshorter hcolon hkeeps => ?_
  have hbody := ihbody tail (by omega)
  refine hbody.andThen fun body tokens left _ hleft hspells => ?_
  have hrest := ihrest left (by omega)
  exact hrest.map fun others more _ hothers =>
    .label hword (hvalue hkeeps) hcolon hspells hothers

theorem takes_default {token : Token} {rest : List Token} (hword : token.lexeme = "default")
    (ihbody : ∀ tail : List Token, tail.length < rest.length + 1 →
      Takes tail (caseBody tail).outcome TookStatements)
    (ihrest : ∀ tail : List Token, tail.length < rest.length + 1 →
      Takes tail (switchBody tail).outcome TookSections) :
    Takes (token :: rest) (switchBody (token :: rest)).outcome TookSections := by
  rw [outcome_switchBody_default rest hword]
  refine .cons (.mark (by decide) fun colon tail hshorter hcolon _ => ?_)
  have hbody := ihbody tail (Nat.lt_succ_of_lt hshorter)
  refine hbody.andThen fun body tokens left _ hleft hspells => ?_
  have hrest := ihrest left (by omega)
  exact hrest.map fun others more _ hothers => .default hword hcolon hspells hothers

theorem not_mem_statementLexemes {token : Token} (hblock : token.lexeme ≠ "\x7b")
    (hempty : token.lexeme ≠ ";") (hif : token.lexeme ≠ "if") (hwhile : token.lexeme ≠ "while")
    (hdo : token.lexeme ≠ "do") (hfor : token.lexeme ≠ "for") (hswitch : token.lexeme ≠ "switch")
    (htry : token.lexeme ≠ "try") (hreturn : token.lexeme ≠ "return")
    (hbreak : token.lexeme ≠ "break") (hcontinue : token.lexeme ≠ "continue") :
    token.lexeme ∉ statementLexemes := by
  simp [statementLexemes, *]

/-- Every reader of statements takes what spells its result. -/
theorem takes_all :
    (∀ tokens, Takes tokens (statement tokens).outcome TookStatement) ∧
    (∀ tokens, Takes tokens (catches tokens).outcome TookClauses) ∧
    (∀ tokens, Takes tokens (block tokens).outcome TookBlock) ∧
    (∀ tokens, Takes tokens (blockBody tokens).outcome TookBody) ∧
    (∀ tokens, Takes tokens (switchBody tokens).outcome TookSections) ∧
    ∀ tokens, Takes tokens (caseBody tokens).outcome TookStatements := by
  apply statement.mutual_induct
  case case1 =>
    rw [outcome_statement_nil]
    exact .error _
  case case2 =>
    intro token rest hopening ih
    rw [outcome_statement_block rest hopening]
    refine .cons (ih.map fun body read left h => ?_)
    obtain ⟨inner, closing, rfl, hspells, hclosing⟩ := h
    exact .closed (.block (.braces hopening hspells hclosing)) rfl
  case case3 =>
    intro token rest hsemicolon
    rw [outcome_statement_empty rest hsemicolon]
    exact .cons (.pure (.closed (.empty hsemicolon) rfl))
  case case4 => exact fun token rest hword ih _ => takes_if hword ih
  case case5 => exact fun token rest hword ih => takes_while hword ih
  case case6 => exact fun token rest hword ih => takes_do hword ih
  case case7 => exact fun token rest hword ih => takes_for hword ih
  case case8 => exact fun token rest hword ih => takes_switch hword (ih [])
  case case9 =>
    exact fun token rest hword ihbody ihclauses ihcleanup =>
      takes_try hword ihbody ihclauses (ihcleanup [] [])
  case case10 => exact fun token rest hword => takes_return rest hword
  case case11 => exact fun token rest hword => takes_break rest hword
  case case12 => exact fun token rest hword => takes_continue rest hword
  case case13 =>
    intro token rest hkind h1 h2 h3 h4 h5 h6 h7 h8 h9 h10 h11
    exact takes_print rest hkind (not_mem_statementLexemes h1 h2 h3 h4 h5 h6 h7 h8 h9 h10 h11)
  case case14 =>
    intro token rest hkind h1 h2 h3 h4 h5 h6 h7 h8 h9 h10 h11
    exact takes_simple rest hkind (not_mem_statementLexemes h1 h2 h3 h4 h5 h6 h7 h8 h9 h10 h11)
  case case15 =>
    rw [outcome_catches_stop rfl]
    exact .pure .noClause
  case case16 => exact fun token rest hword ihbody ih => takes_clause hword ihbody (ih [])
  case case17 =>
    intro token rest hword
    have hnext : nextIs "catch" (token :: rest) = false := decide_eq_false hword
    rw [outcome_catches_stop hnext]
    exact .pure .noClause
  case case18 => exact fun tokens ih => takes_block ih
  case case19 =>
    rw [outcome_blockBody_nil]
    exact .error _
  case case20 =>
    intro token rest hclosing
    rw [outcome_blockBody_end rest hclosing]
    exact .cons (.pure ⟨[], token, rfl, .nil, hclosing⟩)
  case case21 => exact fun token rest hend ih ihrest => takes_blockBody hend ih ihrest
  case case22 =>
    rw [outcome_switchBody_nil]
    exact .error _
  case case23 => exact fun token rest hword ihbody ih => takes_case hword (ihbody []) (ih [] [])
  case case24 => exact fun token rest _ hword ihbody ih => takes_default hword ihbody (ih [])
  case case25 =>
    intro token rest _ _ hclosing
    rw [outcome_switchBody_end rest hclosing]
    exact .cons (.pure (.done hclosing))
  case case26 =>
    intro token rest hcase hdefault hend
    rw [outcome_switchBody_other rest hcase hdefault hend]
    exact .error _
  case case27 =>
    rw [outcome_caseBody_nil]
    exact .error _
  case case28 =>
    intro token rest hend
    rw [outcome_caseBody_end rest hend]
    exact .pure .nil
  case case29 => exact fun token rest hend ih ihrest => takes_caseBody hend ih ihrest

theorem takes_param (tokens : List Token) : Takes tokens (param tokens).outcome
    fun param read rest => KeepsWords rest → SpellsParam param read := by
  rw [outcome_param]
  refine (takes_typeName tokens).andThen fun type head rest _ _ htype => ?_
  exact .name fun name rest _ hname hbefore =>
    .pure fun hkeeps => .mk (htype hbefore) (hname hkeeps)

theorem takes_params (tokens : List Token) : Takes tokens (params tokens).outcome
    fun list read rest => KeepsWords rest → Commas SpellsParam list read := by
  induction tokens using params.induct with
  | _ tokens ih =>
      rw [outcome_params]
      refine (takes_param tokens).andThen fun first read rest hfirst _ hspells => ?_
      have hless := Reading.length_lt_of_outcome hfirst
      split
      · next hcomma =>
          refine .seen (by decide) hcomma fun comma hlexeme hword => ?_
          have hshorter : rest.tail.length < tokens.length :=
            Nat.lt_of_le_of_lt (by simp) hless
          exact (ih rest.tail hshorter).map fun list more left hmore hkeeps =>
            .more (hspells hword) hlexeme (hmore hkeeps)
      · refine .pure fun hkeeps => ?_
        rw [List.append_nil]
        exact .one (hspells hkeeps)

theorem takes_paramsUnless (stop : String) (tokens : List Token) :
    Takes tokens (paramsUnless stop tokens).outcome
      fun list read rest => KeepsWords rest → Listed SpellsParam list read := by
  rw [outcome_paramsUnless]
  split
  · exact .pure fun _ => .none
  · exact (takes_params tokens).mono fun list read rest h hkeeps => .some (h hkeeps)

/-- A method behind its name. -/
theorem takes_method (mods : List Modifier) (returnType : Option TypeName) {name : Token}
    (tokens : List Token) (hname : KeepsWords tokens → IsName name) :
    Takes tokens (method mods returnType name tokens).outcome fun decl read _ =>
      decl.modifiers = mods ∧ decl.returnType = returnType ∧ decl.name = name.lexeme ∧
        SpellsMethod decl (name :: read) := by
  rw [outcome_method]
  refine .mark (by decide) fun opening rest _ hopening hkeeps => ?_
  refine (takes_paramsUnless ")" rest).andThen fun params head rest _ _ hparams => ?_
  refine .mark (by decide) fun closing rest _ hclosing hbehind => ?_
  refine (takes_all.2.2.1 rest).map fun body tokens left hbody => ?_
  exact ⟨rfl, rfl, rfl, .mk (hname hkeeps) hopening (hparams hbehind) hclosing hbody⟩

def TookMember (className : String) (member : Member) (read _rest : List Token) : Prop :=
  ∀ list more, SpellsClass (.members className list) more →
    SpellsClass (.members className (member :: list)) (read ++ more)

theorem takes_constructor {className : String} {mods : List Modifier} {words tokens : List Token}
    (hmods : SpellsModifiers mods words) (hbegins : beginsConstructor className tokens = true) :
    Takes tokens (constructor mods tokens).outcome
      fun decl read rest => TookMember className decl (words ++ read) rest := by
  rw [outcome_constructor]
  intro htable member left hout
  obtain ⟨name, rest, hfirst, -⟩ := Outcome.andThen_eq_ok.mp hout
  obtain ⟨rfl, hkind⟩ := outcome_identifier_eq_ok.mp hfirst
  have hclass : name.lexeme = className := by
    cases rest with
    | nil => cases hbegins
    | cons next rest =>
        simp only [beginsConstructor, Bool.and_eq_true, decide_eq_true_eq] at hbegins
        exact hbegins.1
  rw [outcome_identifier rest hkind, Outcome.ok_andThen] at hout
  have hmethod := takes_method mods none rest fun hkeeps => ⟨hkind, htable.regular hkeeps⟩
  suffices hall : Takes (name :: rest) ((method mods none name rest).outcome.andThen
      fun decl rest => .ok (.method decl, rest))
      fun decl read rest => TookMember className decl (words ++ read) rest from
    hall htable member left hout
  refine .cons (hmethod.map fun decl read left h => ?_)
  obtain ⟨hmodifiers, hnone, hname, hspells⟩ := h
  intro list more hmore
  rw [List.append_assoc]
  exact .constructor (hmodifiers ▸ hmods) hnone (hname.trans hclass) hspells hmore

theorem takes_typedMember {mods : List Modifier} {words : List Token} (className : String)
    (hmods : SpellsModifiers mods words) (tokens : List Token) :
    Takes tokens (typedMember mods tokens).outcome
      fun decl read rest => TookMember className decl (words ++ read) rest := by
  rw [outcome_typedMember]
  refine (takes_typeName tokens).andThen fun type head rest _ _ htype => ?_
  refine .name fun name rest _ hname hbefore => ?_
  split
  · refine (takes_method mods (some type) rest hname).map fun decl read left h => ?_
    obtain ⟨hmodifiers, hsome, -, hspells⟩ := h
    intro list more hmore
    rw [List.append_assoc, List.append_assoc]
    exact .method (hmodifiers ▸ hmods) hsome (htype hbefore) hspells hmore
  · rw [outcome_declarator]
    have hdecl : Takes rest ((initializer rest).outcome.andThen fun init rest =>
        .ok (⟨mods, type, name.lexeme, init, name.position⟩, rest)) fun decl read rest =>
          KeepsWords rest → SpellsVariable decl (words ++ (head ++ name :: read)) :=
      (takes_initializer rest).map fun init tail left hinit hkeeps =>
        .mk hmods (htype hbefore) (hname (hinit hkeeps).2) (hinit hkeeps).1
    refine hdecl.andThen fun decl read rest _ _ hspells => ?_
    refine .mark (by decide) fun semicolon rest _ hsemicolon hkeeps => .pure ?_
    intro list more hmore
    have hfield := SpellsClass.field (hspells hkeeps) hsemicolon hmore
    simpa using hfield

theorem takes_methodOrField {mods : List Modifier} {words : List Token} (className : String)
    (hmods : SpellsModifiers mods words) (tokens : List Token) :
    Takes tokens (methodOrField className mods tokens).outcome
      fun decl read rest => TookMember className decl (words ++ read) rest := by
  rw [outcome_methodOrField]
  split
  · next hbegins => exact takes_constructor hmods hbegins
  · exact takes_typedMember className hmods tokens

def TookClass (mods : List Modifier) (decl : ClassDecl) (read _rest : List Token) : Prop :=
  decl.modifiers = mods ∧ SpellsClass (.decl decl) read

def TookMembers (className : String) (list : List Member) (read _rest : List Token) : Prop :=
  SpellsClass (.members className list) read

/-- A class with its modifiers, as an item or a member. -/
theorem takes_modifiedClass {α : Type} {f : ClassDecl → α} {tokens : List Token}
    {P : α → List Token → List Token → Prop}
    (ih : Takes (modifiers tokens).rest
      (classDecl (modifiers tokens).value (modifiers tokens).rest).outcome
      (TookClass (modifiers tokens).value))
    (h : ∀ decl words read rest, SpellsModifiers decl.modifiers words →
      SpellsClass (.decl decl) read → P (f decl) (words ++ read) rest) :
    Takes tokens ((classDecl (modifiers tokens).value (modifiers tokens).rest).outcome.andThen
      fun decl rest => .ok (f decl, rest)) P := by
  obtain ⟨words, hread, hmods⟩ := modifiers_spelled tokens
  generalize (modifiers tokens).value = mods at ih hmods ⊢
  generalize (modifiers tokens).rest = rest at ih hread ⊢
  rw [hread]
  refine Takes.behind (ih.map fun decl read left hdecl => ?_)
  exact h decl words read left (hdecl.1 ▸ hmods) hdecl.2

/-- The readers of classes take what spells their results. -/
theorem takes_classes :
    (∀ mods tokens, Takes tokens (classDecl mods tokens).outcome (TookClass mods)) ∧
    (∀ className tokens,
      Takes tokens (members className tokens).outcome (TookMembers className)) ∧
    ∀ className tokens, Takes tokens (member className tokens).outcome (TookMember className) := by
  apply classDecl.mutual_induct
  case case1 =>
    intro mods tokens ih
    rw [outcome_classDecl]
    refine .mark (by decide) fun word behindWord hword hlexeme _ => ?_
    refine .name fun name behindName hname hkind _ => ?_
    refine .mark (by decide) fun opening rest hopening hbrace hkeeps => ?_
    have hmembers := ih [] name [] rest (by omega)
    exact hmembers.map fun list read left h => ⟨rfl, .decl hlexeme (hkind hkeeps) hbrace h⟩
  case case2 =>
    intro className
    rw [outcome_members_nil]
    exact .error _
  case case3 =>
    intro className token rest hclosing
    rw [outcome_members_end className rest hclosing]
    exact .cons (.pure (.done hclosing))
  case case4 =>
    intro className token rest _ hsemicolon ih
    rw [outcome_members_skip className rest hsemicolon]
    exact .cons (ih.mono fun list read left h => .skip hsemicolon h)
  case case5 =>
    intro className token rest hend hskip ihfirst ihrest
    rw [outcome_members_cons className rest hend hskip]
    refine ihfirst.andThen fun first read tail hfirst _ hmember => ?_
    have hrest := ihrest tail (Reading.length_lt_of_outcome hfirst)
    exact hrest.map fun list more left h => hmember list more h
  case case6 =>
    intro className tokens mods rest lt hmods hclass ih
    have hvalue : (modifiers tokens).value = mods := by rw [hmods]
    have hrest : (modifiers tokens).rest = rest := by rw [hmods]
    rw [← hvalue, ← hrest] at ih
    rw [outcome_member, if_pos (hrest ▸ hclass)]
    refine takes_modifiedClass ih fun decl words read left hwords hspells list more hmore => ?_
    rw [List.append_assoc]
    exact .nested hwords hspells hmore
  case case7 =>
    intro className tokens mods rest lt hmods hclass
    have hrest : (modifiers tokens).rest = rest := by rw [hmods]
    rw [outcome_member, if_neg (hrest ▸ hclass)]
    obtain ⟨words, hread, hwords⟩ := modifiers_spelled tokens
    generalize (modifiers tokens).value = mods at hwords ⊢
    generalize (modifiers tokens).rest = rest at hread ⊢
    rw [hread]
    exact .behind (takes_methodOrField className hwords rest)

def TookItem (i : Item) (read _rest : List Token) : Prop :=
  ∀ list more, SpellsItems list more → SpellsItems (i :: list) (read ++ more)

theorem takes_item (tokens : List Token) : Takes tokens (item tokens).outcome TookItem := by
  rw [outcome_item]
  split
  · refine takes_modifiedClass (takes_classes.1 _ _) ?_
    intro decl words read left hwords hspells list more hmore
    rw [List.append_assoc]
    exact .declaration hwords hspells hmore
  · exact (takes_all.1 tokens).map fun s read left hs list more hmore => .statement hs.1 hmore

theorem spellsItems_of_items {tokens : List Token} (htable : IsTable tokens) {list : List Item}
    (h : items tokens = .ok list) : SpellsItems list tokens := by
  induction tokens using items.induct generalizing list with
  | case1 =>
      rw [items_nil] at h
      cases h
      exact .nil
  | case2 token rest ih =>
      rw [items_cons] at h
      cases hitem : (item (token :: rest)).outcome with
      | error error =>
          rw [hitem] at h
          cases h
      | ok result =>
          rw [hitem] at h
          obtain ⟨first, tail⟩ := result
          obtain ⟨read, hread, htook⟩ := takes_item (token :: rest) htable first tail hitem
          have hshorter := Reading.length_lt_of_outcome hitem
          dsimp only at h
          cases hmore : items tail with
          | error error =>
              rw [hmore] at h
              cases h
          | ok more =>
              rw [hmore] at h
              cases h
              rw [hread] at htable ⊢
              exact htook more tail (ih tail hshorter htable.behind hmore)

/-- A token table that is accepted spells the program that it gives. -/
theorem spellsItems_of_ofTokens {tokens : List Token} (htable : IsTable tokens)
    {program : Program} (h : Program.ofTokens tokens = .ok program) :
    SpellsItems program.items tokens := by
  unfold Program.ofTokens at h
  cases hitems : items tokens with
  | error error =>
      rw [hitems] at h
      cases h
  | ok list =>
      rw [hitems] at h
      cases h
      exact spellsItems_of_items htable hitems

end MiniJava.Grammar

namespace MiniJava.Program

/-- A source whose program can be checked has a program. -/
theorem exists_program (source : String) (P : Program → Prop) [DecidablePred P]
    (h : (ofSource source).toOption.any (fun program => decide (P program)) = true) :
    ∃ program, ofSource source = .ok program ∧ P program := by
  cases hsource : ofSource source with
  | error error =>
      rw [hsource] at h
      cases h
  | ok program =>
      rw [hsource] at h
      exact ⟨program, rfl, of_decide_eq_true h⟩

end MiniJava.Program
