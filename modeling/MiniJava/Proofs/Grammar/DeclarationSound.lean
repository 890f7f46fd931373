import MiniJava.Proofs.Grammar.ExpressionExact
import MiniJava.Proofs.Grammar.Phrase
import MiniJava.Proofs.Grammar.ProgramOutcome

/-!
# Declarations and expressions are spelled by what is read

Whatever a reader gives is spelled by the tokens that it takes. A name could be a cut-off keyword
with a number behind it, but no reader goes on with a number behind a name.
-/

namespace MiniJava.Grammar

open Lexeme

structure IsTable (tokens : List Token) : Prop where
  lexical : ∀ token ∈ tokens, token.IsLexical
  separated : tokens.IsChain Token.Separates

theorem isTable_tokenize (source : String) : IsTable (tokenize source) where
  lexical := fun _ hmem => Token.isLexical_of_mem_tokenize hmem
  separated := Token.separated_tokenize source

theorem IsTable.behind {read rest : List Token} (h : IsTable (read ++ rest)) : IsTable rest where
  lexical := fun token hmem => h.lexical token (List.mem_append_right _ hmem)
  separated := h.separated.suffix (List.suffix_append ..)

theorem IsTable.tail {token : Token} {rest : List Token} (h : IsTable (token :: rest)) :
    IsTable rest where
  lexical := fun other hmem => h.lexical other (List.mem_cons_of_mem _ hmem)
  separated := h.separated.tail

theorem IsTable.head {token : Token} {rest : List Token} (h : IsTable (token :: rest)) :
    token.IsLexical := h.lexical token (List.mem_cons_self ..)

def KeepsWords (rest : List Token) : Prop :=
  ∃ next ∈ rest.head?, next.kind ≠ .number ∧ next.kind ≠ .error

theorem keepsWords_cons {next : Token} (rest : List Token) (hnumber : next.kind ≠ .number)
    (herror : next.kind ≠ .error) : KeepsWords (next :: rest) := ⟨next, rfl, hnumber, herror⟩

theorem IsTable.regular {token : Token} {rest : List Token} (h : IsTable (token :: rest))
    (hrest : KeepsWords rest) : token.IsRegular := by
  refine ⟨h.head, ?_⟩
  obtain ⟨next, hnext, hnumber, herror⟩ := hrest
  rcases (List.isChain_cons.mp h.separated).1 next hnext with hplain | hkind | hkind
  · exact hplain
  · exact absurd hkind hnumber
  · exact absurd hkind herror

theorem regular_of_kind {token : Token} (h : token.IsLexical) (hkind : token.kind ≠ .identifier) :
    token.IsRegular := ⟨h, fun hidentifier => absurd hidentifier hkind⟩

theorem kind_of_mem_symbols : ∀ entry ∈ symbols,
    entry.2 ≠ .identifier ∧ entry.2 ≠ .number ∧ entry.2 ≠ .error := by
  decide

theorem regular_of_symbol {token : Token} (h : token.IsLexical)
    (hsymbol : token.lexeme ∈ symbols.map Prod.fst) : token.IsRegular := by
  obtain ⟨⟨text, kind⟩, hmem, htext⟩ := List.mem_map.mp hsymbol
  have hkind : token.kind = kind := h.kind_of_symbol (htext ▸ hmem)
  exact regular_of_kind h (hkind ▸ (kind_of_mem_symbols _ hmem).1)

def words : List String := (keywords ++ symbols).map Prod.fst

theorem keepsWords_of_word {next : Token} (rest : List Token) (h : next.IsLexical)
    (hword : next.lexeme ∈ words) : KeepsWords (next :: rest) := by
  have hkeywords : ∀ entry ∈ keywords, entry.2 ≠ .number ∧ entry.2 ≠ .error := by decide
  obtain ⟨⟨text, kind⟩, hmem, htext⟩ := List.mem_map.mp hword
  dsimp only at htext
  subst htext
  rcases List.mem_append.mp hmem with hkeyword | hsymbol
  · rcases h.kind_of_keyword hkeyword with hkind | hkind
    · obtain ⟨hnumber, herror⟩ := hkeywords _ hkeyword
      exact keepsWords_cons rest (hkind ▸ hnumber) (hkind ▸ herror)
    · exact keepsWords_cons rest (by simp [hkind]) (by simp [hkind])
  · have hkind : next.kind = kind := h.kind_of_symbol hsymbol
    obtain ⟨-, hnumber, herror⟩ := kind_of_mem_symbols _ hsymbol
    exact keepsWords_cons rest (hkind ▸ hnumber) (hkind ▸ herror)

theorem mem_words_of_symbol {text : String} (h : text ∈ symbols.map Prod.fst) : text ∈ words := by
  rw [words, List.map_append]
  exact List.mem_append_right _ h

theorem binaryOp_mem_symbols (op : BinaryOp) : op.symbol ∈ symbols.map Prod.fst := by
  cases op <;> decide

theorem unaryOp_mem_symbols (op : UnaryOp) : op.symbol ∈ symbols.map Prod.fst := by
  cases op <;> decide

theorem stepOp_mem_symbols (op : StepOp) : op.symbol ∈ symbols.map Prod.fst := by
  cases op <;> decide

theorem Assigns.kind_ne {sign : Token} {op : Option BinaryOp} (h : Assigns sign op) :
    sign.kind ≠ .identifier ∧ sign.kind ≠ .number ∧ sign.kind ≠ .error := by
  cases h with
  | plain hkind => simp [hkind]
  | compound hkind => simp [hkind]

/-- No name of an expression is a cut-off keyword. -/
theorem Derives.regular {level : Level} {tokens : List Token} {e : Expr}
    (h : Derives level tokens e) {rest : List Token} (htable : IsTable (tokens ++ rest))
    (hrest : KeepsWords rest) : ∀ token ∈ tokens, token.IsRegular := by
  induction h generalizing rest with
  | @assign target sign op tokens value _ hop _ ih =>
      obtain ⟨hname, hnumber, herror⟩ := hop.kind_ne
      have htarget := htable.regular (keepsWords_cons _ hnumber herror)
      have hsign := regular_of_kind htable.tail.head hname
      exact List.forall_mem_cons.mpr
        ⟨htarget, List.forall_mem_cons.mpr ⟨hsign, ih htable.tail.tail hrest⟩⟩
  | loosest _ ih => exact ih htable hrest
  | @binary sign op left right lhs rhs hsign _ _ ihl ihr =>
      rw [List.append_assoc, List.cons_append] at htable
      have hlex := htable.behind.head
      have hsymbol : sign.lexeme ∈ symbols.map Prod.fst := hsign ▸ binaryOp_mem_symbols op
      have hleft := ihl htable (keepsWords_of_word _ hlex (mem_words_of_symbol hsymbol))
      exact List.forall_mem_append.mpr ⟨hleft, List.forall_mem_cons.mpr
        ⟨regular_of_symbol hlex hsymbol, ihr htable.behind.tail hrest⟩⟩
  | tighter _ ih => exact ih htable hrest
  | tightest _ ih => exact ih htable hrest
  | @sign sign op tokens e hsign _ ih =>
      have hsymbol := regular_of_symbol htable.head (hsign ▸ unaryOp_mem_symbols op)
      exact List.forall_mem_cons.mpr ⟨hsymbol, ih htable.tail hrest⟩
  | @stepBefore sign target op hsign _ =>
      have hsymbol := regular_of_symbol htable.head (hsign ▸ stepOp_mem_symbols op)
      have htarget := htable.tail.regular hrest
      exact List.forall_mem_cons.mpr ⟨hsymbol, List.forall_mem_singleton.mpr htarget⟩
  | @stepBehind sign op tokens target position _ hsign ih =>
      rw [List.append_assoc, List.cons_append] at htable
      have hlex := htable.behind.head
      have hsymbol : sign.lexeme ∈ symbols.map Prod.fst := hsign ▸ stepOp_mem_symbols op
      have htokens := ih htable (keepsWords_of_word _ hlex (mem_words_of_symbol hsymbol))
      exact List.forall_mem_append.mpr
        ⟨htokens, List.forall_mem_singleton.mpr (regular_of_symbol hlex hsymbol)⟩
  | operand _ ih => exact ih htable hrest
  | atom _ => exact List.forall_mem_singleton.mpr (htable.regular hrest)
  | @group opening closing tokens e hopening _ hclosing ih =>
      rw [List.cons_append, List.append_assoc, List.cons_append] at htable
      have hlex := htable.tail.behind.head
      have hopen := regular_of_symbol htable.head (hopening ▸ by decide)
      have hclose : closing.lexeme ∈ symbols.map Prod.fst := hclosing ▸ by decide
      have htokens := ih htable.tail (keepsWords_of_word _ hlex (mem_words_of_symbol hclose))
      exact List.forall_mem_cons.mpr ⟨hopen, List.forall_mem_append.mpr
        ⟨htokens, List.forall_mem_singleton.mpr (regular_of_symbol hlex hclose)⟩⟩

section Takes

variable {α β : Type} {tokens : List Token} {P : α → List Token → List Token → Prop}
  {Q : β → List Token → List Token → Prop}

/-- What an outcome gives satisfies `P`, with the tokens that it takes and those that it leaves. -/
def Takes (tokens : List Token) (outcome : Outcome α)
    (P : α → List Token → List Token → Prop) : Prop :=
  IsTable tokens → ∀ a rest, outcome = .ok (a, rest) → ∃ read, tokens = read ++ rest ∧ P a read rest

namespace Takes

theorem pure {a : α} (h : P a [] tokens) : Takes tokens (.ok (a, tokens)) P := by
  intro _ b rest hout
  cases hout
  exact ⟨[], rfl, h⟩

theorem error (error : SyntaxError) : Takes tokens (.error error) P := nofun

theorem andThen {first : Outcome α} {next : α → List Token → Outcome β} (h : Takes tokens first P)
    (hnext : ∀ a read rest, first = .ok (a, rest) → rest.length ≤ tokens.length → P a read rest →
      Takes rest (next a rest) fun b more left => Q b (read ++ more) left) :
    Takes tokens (first.andThen next) Q := by
  intro htable b left hout
  obtain ⟨a, rest, hfirst, hresult⟩ := Outcome.andThen_eq_ok.mp hout
  obtain ⟨read, hread, hP⟩ := h htable a rest hfirst
  have hle : rest.length ≤ tokens.length := by simp [hread]
  obtain ⟨more, hmore, hQ⟩ := hnext a read rest hfirst hle hP (hread ▸ htable).behind b left hresult
  exact ⟨read ++ more, by rw [hread, hmore, List.append_assoc], hQ⟩

theorem map {first : Outcome α} {f : α → β} (h : Takes tokens first P)
    (hmap : ∀ a read rest, P a read rest → Q (f a) read rest) :
    Takes tokens (first.andThen fun a rest => .ok (f a, rest)) Q := by
  refine h.andThen fun a read rest _ _ hP => Takes.pure ?_
  rw [List.append_nil]
  exact hmap a read rest hP

theorem mono {outcome : Outcome α} {P' : α → List Token → List Token → Prop}
    (h : Takes tokens outcome P) (hmono : ∀ a read rest, P a read rest → P' a read rest) :
    Takes tokens outcome P' := by
  intro htable a rest hout
  obtain ⟨read, hread, hP⟩ := h htable a rest hout
  exact ⟨read, hread, hmono a read rest hP⟩

/-- Tokens in front, which have been read. -/
theorem behind {front : List Token} {outcome : Outcome α}
    (h : Takes tokens outcome fun a read rest => P a (front ++ read) rest) :
    Takes (front ++ tokens) outcome P := by
  intro htable a rest hout
  obtain ⟨read, hread, hP⟩ := h htable.behind a rest hout
  exact ⟨front ++ read, by rw [hread, List.append_assoc], hP⟩

/-- One token in front, which has been looked at. -/
theorem cons {token : Token} {outcome : Outcome α}
    (h : Takes tokens outcome fun a read rest => P a (token :: read) rest) :
    Takes (token :: tokens) outcome P := by
  intro htable a rest hout
  obtain ⟨read, hread, hP⟩ := h htable.tail a rest hout
  exact ⟨token :: read, by rw [hread, List.cons_append], hP⟩

theorem mark {lexeme : String} {next : Token → List Token → Outcome β} (hword : lexeme ∈ words)
    (h : ∀ token rest, rest.length < tokens.length → token.lexeme = lexeme → KeepsWords tokens →
      Takes rest (next token rest) fun b more left => Q b (token :: more) left) :
    Takes tokens ((expect lexeme tokens).outcome.andThen next) Q := by
  intro htable b left hout
  obtain ⟨token, rest, hfirst, hresult⟩ := Outcome.andThen_eq_ok.mp hout
  obtain ⟨rfl, hlexeme⟩ := outcome_expect_eq_ok.mp hfirst
  have hkeeps := keepsWords_of_word rest htable.head (hlexeme ▸ hword)
  exact (h token rest (Nat.lt_succ_self _) hlexeme hkeeps).cons htable b left hresult

/-- A keyword or mark that is seen to be next. -/
theorem seen {lexeme : String} {outcome : Outcome β} (hword : lexeme ∈ words)
    (hnext : nextIs lexeme tokens = true)
    (h : ∀ token, token.lexeme = lexeme → KeepsWords tokens →
      Takes tokens.tail outcome fun b more left => Q b (token :: more) left) :
    Takes tokens outcome Q := by
  cases tokens with
  | nil => cases hnext
  | cons token rest =>
      have hlexeme : token.lexeme = lexeme := of_decide_eq_true hnext
      intro htable
      exact (h token hlexeme (keepsWords_of_word rest htable.head (hlexeme ▸ hword))).cons htable

theorem name {next : Token → List Token → Outcome β}
    (h : ∀ token rest, rest.length < tokens.length → (KeepsWords rest → IsName token) →
      KeepsWords tokens →
        Takes rest (next token rest) fun b more left => Q b (token :: more) left) :
    Takes tokens ((identifier tokens).outcome.andThen next) Q := by
  intro htable b left hout
  obtain ⟨token, rest, hfirst, hresult⟩ := Outcome.andThen_eq_ok.mp hout
  obtain ⟨rfl, hkind⟩ := outcome_identifier_eq_ok.mp hfirst
  have hkeeps : KeepsWords (token :: rest) := keepsWords_cons _ (by simp [hkind]) (by simp [hkind])
  have hname : KeepsWords rest → IsName token := fun hrest => ⟨hkind, htable.regular hrest⟩
  exact (h token rest (Nat.lt_succ_self _) hname hkeeps).cons htable b left hresult

end Takes

end Takes

theorem takes_expression (tokens : List Token) : Takes tokens (expression tokens).outcome
    fun e read rest => KeepsWords rest → SpellsExpr e read := by
  intro htable e rest hout
  obtain ⟨read, hread, hderives⟩ := took_all.1 tokens htable.lexical e rest hout
  exact ⟨read, hread, fun hrest => ⟨hderives, hderives.regular (hread ▸ htable) hrest⟩⟩

theorem takes_parenthesized (tokens : List Token) :
    Takes tokens (parenthesized tokens).outcome fun e read _ => SpellsGroup e read := by
  rw [outcome_parenthesized]
  refine .mark (by decide) fun opening rest _ hopening _ => ?_
  refine (takes_expression rest).andThen fun e read rest _ _ he => ?_
  exact .mark (by decide) fun closing rest _ hclosing hkeeps =>
    .pure (.mk hopening (he hkeeps) hclosing)

theorem takes_expressionUnless (stop : String) (tokens : List Token) :
    Takes tokens (expressionUnless stop tokens).outcome
      fun value read rest => KeepsWords rest → SpellsOption value read := by
  rw [outcome_expressionUnless]
  split
  · exact .pure fun _ => .none
  · exact (takes_expression tokens).map fun e read rest he hkeeps => .some (he hkeeps)

theorem takes_expressions (tokens : List Token) : Takes tokens (expressions tokens).outcome
    fun list read rest => KeepsWords rest → Commas SpellsExpr list read := by
  induction tokens using expressions.induct with
  | _ tokens ih =>
      rw [outcome_expressions]
      refine (takes_expression tokens).andThen fun e read rest hfirst _ he => ?_
      have hless := Reading.length_lt_of_outcome hfirst
      split
      · next hcomma =>
          refine .seen (by decide) hcomma fun comma hlexeme hword => ?_
          have hshorter : rest.tail.length < tokens.length :=
            Nat.lt_of_le_of_lt (by simp) hless
          exact (ih rest.tail hshorter).map fun list more left hmore hkeeps =>
            .more (he hword) hlexeme (hmore hkeeps)
      · refine .pure fun hkeeps => ?_
        rw [List.append_nil]
        exact .one (he hkeeps)

theorem takes_expressionsUnless (stop : String) (tokens : List Token) :
    Takes tokens (expressionsUnless stop tokens).outcome
      fun list read rest => KeepsWords rest → Listed SpellsExpr list read := by
  rw [outcome_expressionsUnless]
  split
  · exact .pure fun _ => .none
  · exact (takes_expressions tokens).mono fun list read rest h hkeeps => .some (h hkeeps)

theorem modifiers_spelled (tokens : List Token) :
    ∃ read, tokens = read ++ (modifiers tokens).rest ∧
      SpellsModifiers (modifiers tokens).value read := by
  induction tokens with
  | nil => exact ⟨[], rfl, .nil⟩
  | cons token tokens ih =>
      obtain ⟨read, hread, hspells⟩ := ih
      rw [modifiers]
      cases hword : Modifier.ofWord? token.lexeme with
      | none => exact ⟨[], rfl, .nil⟩
      | some modifier =>
          refine ⟨token :: read, congrArg (token :: ·) hread, .cons ?_ hspells⟩
          exact (Modifier.word_of_ofWord? hword).symm

theorem takes_dimensions (tokens : List Token) : Takes tokens (dimensions tokens).outcome
    fun n read rest => SpellsDimensions n read ∧ (KeepsWords rest → KeepsWords tokens) := by
  induction tokens using dimensions.induct with
  | case1 => exact .pure ⟨.none, id⟩
  | case2 token hleft =>
      rw [dimensions, if_pos hleft]
      exact .error _
  | case3 token hleft =>
      rw [outcome_dimensions_stop (by simpa [nextIs] using hleft)]
      exact .pure ⟨.none, id⟩
  | case4 left right rest hleft hright ih =>
      rw [outcome_dimensions_pair rest hleft hright]
      intro htable
      have hkeeps : KeepsWords (left :: right :: rest) :=
        keepsWords_of_word _ htable.head (hleft ▸ by decide)
      refine Takes.cons (Takes.cons (ih.map fun n read rest h => ?_)) htable
      exact ⟨.more hleft hright h.1, fun _ => hkeeps⟩
  | case5 left right rest hleft hright =>
      rw [dimensions, if_pos hleft, if_neg hright]
      exact .error _
  | case6 left right rest hleft =>
      rw [outcome_dimensions_stop (by simpa [nextIs] using hleft)]
      exact .pure ⟨.none, id⟩

theorem takes_typeName (tokens : List Token) : Takes tokens (typeName tokens).outcome
    fun type read rest => KeepsWords rest → SpellsType type read := by
  cases tokens with
  | nil => exact .error _
  | cons head tokens =>
      by_cases hhead : namesType head = true
      · rw [outcome_typeName tokens hhead]
        intro htable type rest hout
        obtain ⟨n, _, hn, hresult⟩ := Outcome.andThen_eq_ok.mp hout
        cases hresult
        obtain ⟨read, rfl, hspells, hkeeps⟩ := takes_dimensions tokens htable.tail n rest hn
        exact ⟨head :: read, rfl,
          fun hrest => .mk hhead (htable.regular (hkeeps hrest)) hspells⟩
      · rw [typeName, if_neg hhead]
        exact .error _

theorem takes_initializer (tokens : List Token) : Takes tokens (initializer tokens).outcome
    fun init read rest =>
      KeepsWords rest → SpellsInitial init read ∧ KeepsWords tokens := by
  by_cases hsign : nextIs "=" tokens = true
  · cases tokens with
    | nil => cases hsign
    | cons sign tokens =>
        have hlexeme : sign.lexeme = "=" := of_decide_eq_true hsign
        rw [outcome_initializer_some tokens hlexeme]
        intro htable
        refine ((takes_expression tokens).map fun e read rest he hkeeps => ?_).cons htable
        exact ⟨.some hlexeme (he hkeeps),
          keepsWords_of_word _ htable.head (hlexeme ▸ by decide)⟩
  · rw [outcome_initializer_none (by simpa using hsign)]
    exact .pure fun hkeeps => ⟨.none, hkeeps⟩

/-- A variable behind its modifiers, which `words` spell. -/
theorem takes_localVariable {mods : List Modifier} {words : List Token}
    (hmods : SpellsModifiers mods words) (tokens : List Token) :
    Takes tokens (localVariable mods tokens).outcome
      fun decl read rest => KeepsWords rest →
        decl.modifiers = mods ∧ SpellsVariable decl (words ++ read) := by
  rw [outcome_localVariable]
  refine (takes_typeName tokens).andThen fun type head rest _ _ htype => ?_
  refine .name fun name rest _ hname hbefore => ?_
  rw [outcome_declarator]
  refine (takes_initializer rest).map fun init tail left hinit hkeeps => ?_
  obtain ⟨hspells, hbehind⟩ := hinit hkeeps
  exact ⟨rfl, .mk hmods (htype hbefore) (hname hbehind) hspells⟩

theorem takes_declaration (tokens : List Token) : Takes tokens (declaration tokens).outcome
    fun s read rest => KeepsWords rest → ∃ decl, s = .declare decl ∧
      decl.modifiers = (modifiers tokens).value ∧ SpellsVariable decl read := by
  obtain ⟨words, hread, hmods⟩ := modifiers_spelled tokens
  rw [outcome_declaration]
  generalize (modifiers tokens).value = mods at hmods ⊢
  generalize (modifiers tokens).rest = rest at hread ⊢
  rw [hread]
  refine Takes.behind ((takes_localVariable hmods rest).map fun decl read left hdecl hkeeps => ?_)
  obtain ⟨hmodifiers, hspells⟩ := hdecl hkeeps
  exact ⟨decl, rfl, hmodifiers, hspells⟩

theorem keepsWords_of_nameFollows {tokens : List Token} (htable : IsTable tokens)
    (h : nameFollows tokens = true) : KeepsWords tokens := by
  match tokens, h with
  | [token], h =>
      have hkind : token.kind = .identifier := of_decide_eq_true h
      exact keepsWords_cons _ (by simp [hkind]) (by simp [hkind])
  | first :: second :: rest, h =>
      rw [nameFollows] at h
      split at h
      · next hpair =>
          have hleft : first.lexeme = "[" := by simp_all
          exact keepsWords_of_word _ htable.head (hleft ▸ by decide)
      · have hkind : first.kind = .identifier := of_decide_eq_true h
        exact keepsWords_cons _ (by simp [hkind]) (by simp [hkind])

/-- What begins a declaration is the word of a type. -/
theorem exists_of_beginsDeclaration {tokens : List Token} (htable : IsTable tokens)
    (h : beginsDeclaration tokens = true) :
    ∃ first tail, tokens = first :: tail ∧ first.IsRegular ∧
      (first.kind = .dataType ∨ first.kind = .identifier) := by
  cases tokens with
  | nil => cases h
  | cons first tail =>
      simp only [beginsDeclaration, Bool.or_eq_true, Bool.and_eq_true, decide_eq_true_eq] at h
      rcases h with hkind | ⟨hkind, hname⟩
      · exact ⟨first, tail, rfl, regular_of_kind htable.head (by simp [hkind]), .inl hkind⟩
      · exact ⟨first, tail, rfl,
          htable.regular (keepsWords_of_nameFollows htable.tail hname), .inr hkind⟩

theorem modifier_mem_keywords (modifier : Modifier) :
    (modifier.word, TokenKind.accessModifier) ∈ keywords := by
  cases modifier <;> decide

theorem modifiers_of_beginsDeclaration {tokens : List Token} (htable : IsTable tokens)
    (h : beginsDeclaration tokens = true) : (modifiers tokens).value = [] := by
  obtain ⟨first, tail, rfl, hregular, hkind⟩ := exists_of_beginsDeclaration htable h
  rw [modifiers]
  cases hword : Modifier.ofWord? first.lexeme with
  | none => rfl
  | some modifier =>
      have hmodifier := modifier_mem_keywords modifier
      rw [Modifier.word_of_ofWord? hword] at hmodifier
      have haccess := hregular.kind_of_keyword hmodifier
      rw [haccess] at hkind
      rcases hkind with hkind | hkind <;> cases hkind

theorem modifiers_of_final {tokens : List Token} (h : nextIs "final" tokens = true) :
    (modifiers tokens).value.head? = some .final := by
  cases tokens with
  | nil => cases h
  | cons token tokens =>
      have hlexeme : token.lexeme = "final" := of_decide_eq_true h
      have hword : Modifier.ofWord? token.lexeme = some .final := by
        rw [hlexeme]
        decide
      rw [modifiers, hword]
      rfl

/-- A declaration that is told by its type has another one than `void`. -/
theorem type_ne_void {read rest : List Token} {decl : VarDecl}
    (htable : IsTable (read ++ rest)) (h : beginsDeclaration (read ++ rest) = true)
    (hspells : SpellsVariable decl read) (hmods : decl.modifiers = []) :
    decl.type.name ≠ "void" := by
  obtain ⟨first, tail, hfirst, hregular, hkind⟩ := exists_of_beginsDeclaration htable h
  cases hspells with
  | mk hwords htype _ _ =>
      cases htype with
      | mk _ _ _ =>
          dsimp only at hmods
          subst hmods
          cases hwords
          simp only [List.nil_append, List.cons_append, List.cons.injEq] at hfirst
          rw [hfirst.1]
          intro hvoid
          have hlexeme : first.lexeme = "void" := hvoid
          have hreserved : first.kind = .reservedWord :=
            hregular.kind_of_keyword (hlexeme ▸ by decide)
          rw [hreserved] at hkind
          rcases hkind with hkind | hkind <;> cases hkind

theorem takes_simple_declaration {tokens : List Token}
    (h : (modifiers tokens).value ≠ [] ∨ beginsDeclaration tokens = true) :
    Takes tokens (declaration tokens).outcome
      fun s read rest => KeepsWords rest → SpellsSimple s read := by
  intro htable s rest hout
  obtain ⟨read, hread, hdecl⟩ := takes_declaration tokens htable s rest hout
  refine ⟨read, hread, fun hkeeps => ?_⟩
  obtain ⟨decl, rfl, hmods, hspells⟩ := hdecl hkeeps
  refine .declare hspells fun hnone => ?_
  rcases h with hsome | hbegins
  · exact absurd (hmods ▸ hnone) hsome
  · subst hread
    exact type_ne_void htable hbegins hspells hnone

theorem takes_expressionStatement (tokens : List Token) :
    Takes tokens (expressionStatement tokens).outcome
      fun s read rest => KeepsWords rest → SpellsSimple s read ∧ fitsHeader s := by
  rw [outcome_expressionStatement]
  exact (takes_expression tokens).map fun e read rest he hkeeps =>
    ⟨.expression (he hkeeps), trivial⟩

theorem takes_declarationOrExpression (tokens : List Token) :
    Takes tokens (declarationOrExpression tokens).outcome
      fun s read rest => KeepsWords rest → SpellsSimple s read := by
  rw [outcome_declarationOrExpression]
  split
  · next h => exact takes_simple_declaration (by simpa using h)
  · exact (takes_expressionStatement tokens).mono fun s read rest h hkeeps => (h hkeeps).1

theorem takes_forInit (tokens : List Token) : Takes tokens (forInit tokens).outcome
    fun init read rest => KeepsWords rest → SpellsStart init read := by
  rw [outcome_forInit]
  split
  · exact .pure fun _ => .none
  · split
    · next h =>
        intro htable init rest hout
        obtain ⟨s, _, hs, hresult⟩ := Outcome.andThen_eq_ok.mp hout
        cases hresult
        rw [Bool.or_eq_true] at h
        have hbegins : (modifiers tokens).value ≠ [] ∨ beginsDeclaration tokens = true := by
          refine h.symm.imp_left fun hfinal hnone => ?_
          simpa [hnone] using modifiers_of_final hfinal
        obtain ⟨read, hread, hsimple⟩ := takes_simple_declaration hbegins htable s rest hs
        obtain ⟨_, hread', hdecl⟩ := takes_declaration tokens htable s rest hs
        refine ⟨read, hread, fun hkeeps => .some (hsimple hkeeps) ?_⟩
        obtain ⟨decl, rfl, hmods, -⟩ := hdecl hkeeps
        intro modifier hmodifier
        rw [hmods] at hmodifier
        rcases h with hbegins | hfinal
        · rw [modifiers_of_beginsDeclaration htable hbegins] at hmodifier
          cases hmodifier
        · rw [modifiers_of_final hfinal] at hmodifier
          exact (Option.some.inj hmodifier).symm
    · refine (takes_expressionStatement tokens).map fun s read rest hs hkeeps => ?_
      obtain ⟨hspells, hfits⟩ := hs hkeeps
      exact .some hspells hfits

end MiniJava.Grammar
