import MiniJava.Proofs.Grammar.ExpressionExact
import MiniJava.Proofs.Grammar.Phrase
import MiniJava.Proofs.Grammar.ProgramOutcome

/-!
# Declarations and expressions are read back

What spells a declaration or an expression is read as it, in front of a mark that ends it. The first
token tells the two apart: a name that begins an expression has no name and no bracket behind it.
-/

namespace MiniJava.Grammar

open Lexeme

def openers : List String :=
  statementLexemes ++ Modifier.all.map Modifier.word ++
    [")", "\x7d", "case", "default", "else", "catch", "finally", "class"]

def openerKinds : List TokenKind :=
  [.delimiter, .conditional, .loop, .exception, .accessModifier, .reservedWord]

theorem not_mem_openers {token : Token} (h : token.IsRegular) (hkind : token.kind ∉ openerKinds) :
    token.lexeme ∉ openers := by
  have hall : ∀ text ∈ openers, ∃ kind ∈ openerKinds,
      (text, kind) ∈ symbols ∨ (text, kind) ∈ keywords := by decide
  intro hmem
  obtain ⟨kind, hopener, hsymbol | hkeyword⟩ := hall _ hmem
  · exact hkind (h.lexical.kind_of_symbol hsymbol ▸ hopener)
  · exact hkind (h.kind_of_keyword hkeyword ▸ hopener)

theorem ofWord?_of_not_mem {token : Token} (h : token.lexeme ∉ openers) :
    Modifier.ofWord? token.lexeme = none := by
  refine Option.eq_none_iff_forall_not_mem.mpr fun modifier hmodifier => h ?_
  rw [← Modifier.word_of_ofWord? hmodifier]
  cases modifier <;> decide

theorem nextIs_eq_false {lexeme : String} {token : Token} (rest : List Token)
    (h : token.lexeme ∉ openers) (hmem : lexeme ∈ openers) :
    nextIs lexeme (token :: rest) = false :=
  decide_eq_false fun heq => h (heq ▸ hmem)

theorem IsName.not_mem_openers {name : Token} (h : IsName name) : name.lexeme ∉ openers :=
  Grammar.not_mem_openers h.regular (by rw [h.kind]; decide)

def enders : List String := [";", ")", ",", ":"]

theorem kind_of_mem_enders {token : Token} (h : token.IsLexical) (hmem : token.lexeme ∈ enders) :
    token.kind = .delimiter := by
  have hall : ∀ text ∈ enders, (text, TokenKind.delimiter) ∈ symbols := by decide
  exact h.kind_of_symbol (hall _ hmem)

theorem endsExpression_of_mem {token : Token} (rest : List Token) (h : token.IsLexical)
    (hmem : token.lexeme ∈ enders) : EndsExpression (token :: rest) := by
  intro next hnext
  cases hnext
  exact ⟨h, by rw [kind_of_mem_enders h hmem]; rfl⟩

theorem SpellsExpr.read {e : Expr} {tokens rest : List Token} (h : SpellsExpr e tokens)
    (hrest : EndsExpression rest) : (expression (tokens ++ rest)).outcome = .ok (e, rest) :=
  h.derives.readBack (fun token hmem => (h.regular token hmem).lexical) rest hrest

def GoesOn (rest : List Token) : Prop :=
  ∀ next ∈ rest.head?, next.kind ≠ .identifier ∧ next.lexeme ≠ "["

theorem goesOn_nil : GoesOn [] := fun _ h => nomatch h

theorem goesOn_of_kind {next : Token} (rest : List Token) (h : next.IsLexical)
    (hname : next.kind ≠ .identifier) (hbracket : next.kind ≠ .openBracket) :
    GoesOn (next :: rest) := by
  intro token htoken
  cases htoken
  exact ⟨hname, fun hleft => hbracket (h.kind_of_symbol (hleft ▸ by decide))⟩

theorem goesOn_of_operator {next : Token} (rest : List Token) (h : next.IsLexical)
    (hoperator : next.kind.isOperator = true) : GoesOn (next :: rest) := by
  apply goesOn_of_kind rest h
  · intro hkind
    rw [hkind] at hoperator
    cases hoperator
  · intro hkind
    rw [hkind] at hoperator
    cases hoperator

theorem isOperator_of_binaryOp {sign : Token} {op : BinaryOp} (h : sign.IsLexical)
    (hsign : sign.lexeme = op.symbol) : sign.kind.isOperator = true := by
  have hop := (binaryOp?_eq_some_iff h).mpr hsign
  unfold binaryOp? at hop
  split at hop
  all_goals simp_all [TokenKind.isOperator]

theorem Atom.kind_mem {token : Token} {e : Expr} (h : Atom token e) : token.kind ∉ openerKinds := by
  cases h <;> simp_all [openerKinds]

/-- An expression opens nothing, and a name at its front does not begin a declaration. -/
theorem Derives.exists_first {level : Level} {tokens : List Token} {e : Expr}
    (h : Derives level tokens e) (hregular : ∀ token ∈ tokens, token.IsRegular)
    {rest : List Token} (hrest : GoesOn rest) :
    ∃ first tail, tokens = first :: tail ∧ first.lexeme ∉ openers ∧ first.kind ≠ .dataType ∧
      first.kind ≠ .printCall ∧ (first.kind = .identifier → GoesOn (tail ++ rest)) := by
  have hoperator : ∀ {sign : Token}, sign.IsRegular → sign.kind.isOperator = true →
      sign.kind ∉ openerKinds ∧ sign.kind ≠ .dataType ∧ sign.kind ≠ .printCall ∧
        sign.kind ≠ .identifier := by
    intro sign _ hkind
    generalize sign.kind = kind at hkind
    cases kind <;> simp_all [TokenKind.isOperator, openerKinds]
  induction h generalizing rest with
  | @assign target sign op tokens value hkind hop _ _ =>
      simp only [List.forall_mem_cons] at hregular
      have hsign : sign.kind.isOperator = true := by
        cases hop with
        | plain hassign => rw [hassign]; rfl
        | compound hassign => rw [hassign]; rfl
      refine ⟨target, sign :: tokens, rfl, ?_, by simp [hkind], by simp [hkind], fun _ => ?_⟩
      · exact not_mem_openers hregular.1 (by rw [hkind]; decide)
      · exact goesOn_of_operator _ hregular.2.1.lexical hsign
  | loosest _ ih => exact ih hregular hrest
  | @binary sign op left right lhs rhs hsign _ _ ihl _ =>
      simp only [List.forall_mem_append, List.forall_mem_cons] at hregular
      have hlex := hregular.2.1.lexical
      obtain ⟨first, tail, rfl, hopens, hdata, hprint, hname⟩ := ihl hregular.1
        (goesOn_of_operator (right ++ rest) hlex (isOperator_of_binaryOp hlex hsign))
      refine ⟨first, tail ++ sign :: right, rfl, hopens, hdata, hprint, fun hkind => ?_⟩
      rw [List.append_assoc]
      exact hname hkind
  | tighter _ ih => exact ih hregular hrest
  | tightest _ ih => exact ih hregular hrest
  | @sign sign op tokens e hsign _ _ =>
      simp only [List.forall_mem_cons] at hregular
      obtain ⟨hopens, hdata, hprint, hname⟩ :=
        hoperator hregular.1 (hregular.1.lexical.kind_of_unaryOp hsign)
      exact ⟨sign, tokens, rfl, not_mem_openers hregular.1 hopens, hdata, hprint,
        fun hkind => absurd hkind hname⟩
  | @stepBefore sign target op hsign _ =>
      simp only [List.forall_mem_cons] at hregular
      have hkind := hregular.1.lexical.kind_of_stepOp hsign
      refine ⟨sign, [target], rfl, ?_, by simp [hkind], by simp [hkind], ?_⟩
      · exact not_mem_openers hregular.1 (by rw [hkind]; decide)
      · intro hname
        rw [hkind] at hname
        cases hname
  | @stepBehind sign op tokens target position _ hsign ih =>
      simp only [List.forall_mem_append, List.forall_mem_singleton] at hregular
      have hkind := hregular.2.lexical.kind_of_stepOp hsign
      obtain ⟨first, tail, rfl, hopens, hdata, hprint, hname⟩ := ih hregular.1
        (goesOn_of_kind rest hregular.2.lexical (by simp [hkind]) (by simp [hkind]))
      refine ⟨first, tail ++ [sign], rfl, hopens, hdata, hprint, fun hkind => ?_⟩
      rw [List.append_assoc]
      exact hname hkind
  | operand _ ih => exact ih hregular hrest
  | @atom token _ hatom =>
      simp only [List.forall_mem_singleton] at hregular
      refine ⟨token, [], rfl, not_mem_openers hregular hatom.kind_mem, ?_, ?_, fun _ => hrest⟩
      · cases hatom <;> simp_all
      · cases hatom <;> simp_all
  | @group opening closing tokens e hopening _ _ _ =>
      simp only [List.forall_mem_cons] at hregular
      have hkind := hregular.1.lexical.kind_of_open hopening
      refine ⟨opening, tokens ++ [closing], rfl, hopening ▸ by decide, by simp [hkind],
        by simp [hkind], ?_⟩
      intro hname
      rw [hkind] at hname
      cases hname

theorem nameFollows_eq_false {rest : List Token} (h : GoesOn rest) : nameFollows rest = false := by
  match rest with
  | [] => rfl
  | [token] => exact decide_eq_false (h token rfl).1
  | first :: second :: rest =>
      obtain ⟨hname, hbracket⟩ := h first rfl
      simp [nameFollows, hname, hbracket]

theorem goesOn_of_mem_enders {next : Token} (rest : List Token) (h : next.IsLexical)
    (hmem : next.lexeme ∈ enders) : GoesOn (next :: rest) := by
  have hkind := kind_of_mem_enders h hmem
  exact goesOn_of_kind rest h (by simp [hkind]) (by simp [hkind])

theorem parenthesized_read {e : Expr} {tokens : List Token} (rest : List Token)
    (h : SpellsGroup e tokens) (hlexical : ∀ token ∈ tokens, token.IsLexical) :
    (parenthesized (tokens ++ rest)).outcome = .ok (e, rest) := by
  cases h with
  | @mk opening closing tokens hopening he hclosing =>
      simp only [List.forall_mem_cons, List.forall_mem_append] at hlexical
      have hends := endsExpression_of_mem rest hlexical.2.2.1 (hclosing ▸ by decide)
      rw [outcome_parenthesized, List.cons_append, outcome_expect _ hopening, Outcome.ok_andThen,
        List.append_assoc, List.singleton_append, he.read hends, Outcome.ok_andThen,
        outcome_expect _ hclosing, Outcome.ok_andThen]

theorem nextIs_eq_false_of_mem_enders {lexeme : String} {next : Token} (rest : List Token)
    (hmem : next.lexeme ∈ enders) (hlexeme : lexeme ∉ enders) :
    nextIs lexeme (next :: rest) = false :=
  decide_eq_false fun heq => hlexeme (heq ▸ hmem)

theorem SpellsExpr.exists_first {e : Expr} {tokens : List Token} (h : SpellsExpr e tokens) :
    ∃ first tail, tokens = first :: tail ∧ first.lexeme ∉ openers := by
  obtain ⟨first, tail, htokens, hopens, -⟩ :=
    h.derives.exists_first h.regular goesOn_nil
  exact ⟨first, tail, htokens, hopens⟩

theorem SpellsOption.read {value : Option Expr} {tokens : List Token} {next : Token}
    (rest : List Token) (h : SpellsOption value tokens) (hnext : next.IsLexical)
    (hmark : next.lexeme = ";") :
    (expressionUnless ";" (tokens ++ next :: rest)).outcome = .ok (value, next :: rest) := by
  rw [outcome_expressionUnless]
  cases h with
  | none => exact if_pos (decide_eq_true hmark)
  | some he =>
      obtain ⟨first, tail, rfl, hopens⟩ := he.exists_first
      have hread := he.read (endsExpression_of_mem rest hnext (hmark ▸ by decide))
      have hother : nextIs ";" (first :: tail ++ next :: rest) = false :=
        nextIs_eq_false _ hopens (by decide)
      rw [hother, if_neg Bool.false_ne_true, hread, Outcome.ok_andThen]

theorem Commas.exists_first {α : Type} {spells : α → List Token → Prop} {list : List α}
    {tokens : List Token} (h : Commas spells list tokens)
    (hone : ∀ a tokens, spells a tokens →
      ∃ first tail, tokens = first :: tail ∧ first.lexeme ∉ openers) :
    ∃ first tail, tokens = first :: tail ∧ first.lexeme ∉ openers := by
  cases h with
  | one ha => exact hone _ _ ha
  | more ha _ _ =>
      obtain ⟨first, tail, rfl, hopens⟩ := hone _ _ ha
      exact ⟨first, _, rfl, hopens⟩

section Lists

variable {α : Type} {spells : α → List Token → Prop} (one : List Token → Outcome α)
  (reader : List Token → Outcome (List α))

/-- A reader of lists reads what has commas between its parts. -/
theorem Commas.read
    (hreader : ∀ tokens, reader tokens = (one tokens).andThen fun a rest =>
      if nextIs "," rest then (reader rest.tail).andThen fun more rest => .ok (a :: more, rest)
      else .ok ([a], rest))
    (hone : ∀ a tokens next rest, spells a tokens → Token.IsLexical next →
      next.lexeme ∈ enders → one (tokens ++ next :: rest) = .ok (a, next :: rest))
    {list : List α} {tokens : List Token} (h : Commas spells list tokens)
    (hlexical : ∀ token ∈ tokens, token.IsLexical) {next : Token} (rest : List Token)
    (hnext : next.IsLexical) (hmark : next.lexeme = ")") :
    reader (tokens ++ next :: rest) = .ok (list, next :: rest) := by
  induction h with
  | one ha =>
      have hstop : nextIs "," (next :: rest) = false := by simp [nextIs, hmark]
      rw [hreader, hone _ _ _ _ ha hnext (hmark ▸ by decide), Outcome.ok_andThen, hstop,
        if_neg Bool.false_ne_true]
  | @more a list comma tokens tail ha hcomma _ ih =>
      simp only [List.forall_mem_append, List.forall_mem_cons] at hlexical
      have hseen : nextIs "," (comma :: (tail ++ next :: rest)) = true := decide_eq_true hcomma
      rw [hreader, List.append_assoc, List.cons_append,
        hone _ _ _ _ ha hlexical.2.1 (hcomma ▸ by decide), Outcome.ok_andThen, if_pos hseen,
        List.tail_cons, ih hlexical.2.2, Outcome.ok_andThen]

/-- A list in parentheses is told from none by what it begins with. -/
theorem Listed.read
    (hreader : ∀ tokens, reader tokens = (one tokens).andThen fun a rest =>
      if nextIs "," rest then (reader rest.tail).andThen fun more rest => .ok (a :: more, rest)
      else .ok ([a], rest))
    (hone : ∀ a tokens next rest, spells a tokens → Token.IsLexical next →
      next.lexeme ∈ enders → one (tokens ++ next :: rest) = .ok (a, next :: rest))
    (hfirst : ∀ a tokens, spells a tokens →
      ∃ first tail, tokens = first :: tail ∧ first.lexeme ∉ openers)
    {list : List α} {tokens : List Token} (h : Listed spells list tokens)
    (hlexical : ∀ token ∈ tokens, token.IsLexical) {next : Token} (rest : List Token)
    (hnext : next.IsLexical) (hmark : next.lexeme = ")") :
    (if nextIs ")" (tokens ++ next :: rest) then .ok ([], tokens ++ next :: rest)
      else reader (tokens ++ next :: rest)) = .ok (list, next :: rest) := by
  cases h with
  | none => exact if_pos (decide_eq_true hmark)
  | some hlist =>
      have hread := hlist.read one reader hreader hone hlexical rest hnext hmark
      obtain ⟨first, tail, rfl, hopens⟩ := hlist.exists_first hfirst
      have hother : nextIs ")" (first :: tail ++ next :: rest) = false :=
        nextIs_eq_false _ hopens (by decide)
      rw [hother, if_neg Bool.false_ne_true, hread]

end Lists

theorem expressions_read {list : List Expr} {tokens : List Token}
    (h : Listed SpellsExpr list tokens) (hlexical : ∀ token ∈ tokens, token.IsLexical)
    {next : Token} (rest : List Token) (hnext : next.IsLexical) (hmark : next.lexeme = ")") :
    (expressionsUnless ")" (tokens ++ next :: rest)).outcome = .ok (list, next :: rest) := by
  rw [outcome_expressionsUnless]
  exact h.read (fun tokens => (expression tokens).outcome)
    (fun tokens => (expressions tokens).outcome) outcome_expressions
    (fun _ _ _ more he hstop hmem => he.read (endsExpression_of_mem more hstop hmem))
    (fun _ _ he => he.exists_first) hlexical rest hnext hmark

theorem SpellsDimensions.read {n : Nat} {tokens rest : List Token} (h : SpellsDimensions n tokens)
    (hrest : nextIs "[" rest = false) : (dimensions (tokens ++ rest)).outcome = .ok (n, rest) := by
  induction h with
  | none => exact outcome_dimensions_stop hrest
  | more hleft hright _ ih =>
      rw [List.cons_append, List.cons_append, outcome_dimensions_pair _ hleft hright, ih,
        Outcome.ok_andThen]

theorem SpellsType.read {type : TypeName} {tokens rest : List Token} (h : SpellsType type tokens)
    (hrest : nextIs "[" rest = false) : (typeName (tokens ++ rest)).outcome = .ok (type, rest) := by
  cases h with
  | mk hhead hregular hdims =>
      rw [List.cons_append, outcome_typeName _ hhead, hdims.read hrest, Outcome.ok_andThen]

theorem SpellsType.exists_first {type : TypeName} {tokens : List Token}
    (h : SpellsType type tokens) :
    ∃ head tail, tokens = head :: tail ∧ head.lexeme ∉ openers ∧ head.kind ≠ .printCall := by
  cases h with
  | @mk head n tokens hhead hregular hdims =>
      simp only [namesType, Bool.or_eq_true, decide_eq_true_eq] at hhead
      refine ⟨head, tokens, rfl, ?_⟩
      rcases hhead with (hkind | hkind) | hvoid
      · exact ⟨not_mem_openers hregular (by rw [hkind]; decide), by simp [hkind]⟩
      · exact ⟨not_mem_openers hregular (by rw [hkind]; decide), by simp [hkind]⟩
      · have hkind : head.kind = .reservedWord := hregular.kind_of_keyword (hvoid ▸ by decide)
        exact ⟨hvoid ▸ by decide, by simp [hkind]⟩

/-- A name is no mark. -/
theorem IsName.lexeme_ne {name : Token} (h : IsName name) {text : String}
    (hsymbol : text ∈ symbols.map Prod.fst) : name.lexeme ≠ text := by
  have hall : ∀ entry ∈ symbols, entry.2 ≠ .identifier := by decide
  obtain ⟨⟨text, kind⟩, hmem, rfl⟩ := List.mem_map.mp hsymbol
  refine fun heq => hall _ hmem ?_
  exact (h.regular.lexical.kind_of_symbol (heq ▸ hmem)).symm.trans h.kind

theorem IsName.nextIs_eq_false {name : Token} (rest : List Token) (h : IsName name)
    {text : String} (hsymbol : text ∈ symbols.map Prod.fst) :
    nextIs text (name :: rest) = false := decide_eq_false (h.lexeme_ne hsymbol)

theorem SpellsInitial.read {init : Option Expr} {tokens : List Token} {next : Token}
    (rest : List Token) (h : SpellsInitial init tokens) (hnext : next.IsLexical)
    (hmark : next.lexeme ∈ enders) :
    (initializer (tokens ++ next :: rest)).outcome = .ok (init, next :: rest) := by
  cases h with
  | none => exact outcome_initializer_none (nextIs_eq_false_of_mem_enders rest hmark (by decide))
  | some hsign he =>
      rw [List.cons_append, outcome_initializer_some _ hsign,
        he.read (endsExpression_of_mem rest hnext hmark), Outcome.ok_andThen]

theorem SpellsModifiers.read {mods : List Modifier} {words : List Token} {first : Token}
    (rest : List Token) (h : SpellsModifiers mods words)
    (hfirst : Modifier.ofWord? first.lexeme = none) :
    (modifiers (words ++ first :: rest)).value = mods ∧
      (modifiers (words ++ first :: rest)).rest = first :: rest := by
  induction h with
  | nil =>
      rw [List.nil_append, modifiers, hfirst]
      exact ⟨rfl, rfl⟩
  | @cons modifier token mods words hword _ ih =>
      have hmodifier : Modifier.ofWord? token.lexeme = some modifier := by
        rw [hword, Modifier.ofWord?_word]
      rw [List.cons_append, modifiers, hmodifier]
      exact ⟨congrArg (modifier :: ·) ih.1, ih.2⟩

theorem modifiers_read_none {first : Token} (rest : List Token) (h : first.lexeme ∉ openers) :
    (modifiers (first :: rest)).value = [] ∧ (modifiers (first :: rest)).rest = first :: rest :=
  SpellsModifiers.read rest .nil (ofWord?_of_not_mem h)

theorem localVariable_read (mods : List Modifier) {type : TypeName} {name next : Token}
    {init : Option Expr} {head tail : List Token} (rest : List Token) (htype : SpellsType type head)
    (hname : IsName name) (hinit : SpellsInitial init tail) (hnext : next.IsLexical)
    (hmark : next.lexeme ∈ enders) :
    (localVariable mods (head ++ name :: tail ++ next :: rest)).outcome =
      .ok (⟨mods, type, name.lexeme, init, name.position⟩, next :: rest) := by
  have hbracket : nextIs "[" (name :: (tail ++ next :: rest)) = false :=
    hname.nextIs_eq_false _ (by decide)
  rw [outcome_localVariable, List.append_assoc, List.cons_append, htype.read hbracket,
    Outcome.ok_andThen, outcome_identifier _ hname.kind, Outcome.ok_andThen, outcome_declarator,
    hinit.read rest hnext hmark, Outcome.ok_andThen]

theorem SpellsVariable.read {decl : VarDecl} {tokens : List Token} {next : Token}
    (rest : List Token) (h : SpellsVariable decl tokens) (hnext : next.IsLexical)
    (hmark : next.lexeme ∈ enders) :
    (declaration (tokens ++ next :: rest)).outcome = .ok (.declare decl, next :: rest) ∧
      (modifiers (tokens ++ next :: rest)).value = decl.modifiers := by
  cases h with
  | @mk mods type name init words head tail hmods htype hname hinit =>
      obtain ⟨first, more, rfl, hopens, -⟩ := htype.exists_first
      have hread := localVariable_read mods rest htype hname hinit hnext hmark
      rw [List.append_assoc]
      obtain ⟨hvalue, hbehind⟩ := hmods.read (more ++ name :: tail ++ next :: rest)
        (ofWord?_of_not_mem hopens)
      refine ⟨?_, hvalue⟩
      rw [outcome_declaration]
      simp only [List.cons_append] at hvalue hbehind hread ⊢
      rw [hvalue, hbehind, hread, Outcome.ok_andThen]

theorem nameFollows_read {n : Nat} {tokens : List Token} {name : Token} (rest : List Token)
    (h : SpellsDimensions n tokens) (hname : IsName name) :
    nameFollows (tokens ++ name :: rest) = true := by
  induction h with
  | none =>
      have hbracket : (decide (name.lexeme = "[")) = false :=
        hname.nextIs_eq_false rest (by decide)
      cases rest with
      | nil => exact decide_eq_true hname.kind
      | cons second rest => simp [nameFollows, of_decide_eq_false hbracket, hname.kind]
  | more hleft hright _ ih => simp [nameFollows, hleft, hright, ih]

/-- A declaration without modifiers is told by its type, and one with modifiers by them. -/
theorem SpellsVariable.begins {decl : VarDecl} {tokens : List Token} (rest : List Token)
    (h : SpellsVariable decl tokens) (hmods : decl.modifiers = [])
    (hvoid : decl.type.name ≠ "void") : beginsDeclaration (tokens ++ rest) = true := by
  cases h with
  | @mk _ _ name init words _ tail hwords htype hname hinit =>
      dsimp only at hmods
      subst hmods
      cases hwords
      cases htype with
      | mk hhead hregular hdims =>
          have hbehind := nameFollows_read (tail ++ rest) hdims hname
          simp only [namesType, Bool.or_eq_true, decide_eq_true_eq] at hhead
          simp only [List.nil_append, List.cons_append, List.append_assoc]
          rcases hhead with (hkind | hkind) | hlexeme
          · simp [beginsDeclaration, hkind]
          · simp only [beginsDeclaration, hkind, hbehind]
            rfl
          · exact absurd hlexeme hvoid

theorem SpellsExpr.begins {e : Expr} {tokens rest : List Token} (h : SpellsExpr e tokens)
    (hrest : GoesOn rest) :
    ∃ first tail, tokens = first :: tail ∧ first.lexeme ∉ openers ∧ first.kind ≠ .printCall ∧
      (modifiers (tokens ++ rest)).value = [] ∧
      (modifiers (tokens ++ rest)).rest = tokens ++ rest ∧
      beginsDeclaration (tokens ++ rest) = false := by
  obtain ⟨first, tail, rfl, hopens, hdata, hprint, hname⟩ :=
    h.derives.exists_first h.regular hrest
  obtain ⟨hvalue, hbehind⟩ := modifiers_read_none (tail ++ rest) hopens
  refine ⟨first, tail, rfl, hopens, hprint, hvalue, hbehind, ?_⟩
  rw [List.cons_append, beginsDeclaration, decide_eq_false hdata, Bool.false_or]
  by_cases hkind : first.kind = .identifier
  · rw [nameFollows_eq_false (hname hkind), Bool.and_false]
  · rw [decide_eq_false hkind, Bool.false_and]

theorem SpellsSimple.read {s : Stmt} {tokens : List Token} {next : Token} (rest : List Token)
    (h : SpellsSimple s tokens) (hnext : next.IsLexical) (hmark : next.lexeme ∈ enders) :
    (declarationOrExpression (tokens ++ next :: rest)).outcome = .ok (s, next :: rest) := by
  rw [outcome_declarationOrExpression]
  cases h with
  | @declare decl _ hdecl hvoid =>
      obtain ⟨hread, hmods⟩ := hdecl.read rest hnext hmark
      rw [hmods, hread]
      cases hmodifiers : decl.modifiers with
      | nil =>
          rw [hdecl.begins _ hmodifiers (hvoid hmodifiers), Bool.or_true, if_pos rfl]
      | cons modifier mods => rfl
  | expression he =>
      obtain ⟨first, tail, -, -, -, hmods, -, hbegins⟩ :=
        he.begins (goesOn_of_mem_enders rest hnext hmark)
      rw [hmods, hbegins, outcome_expressionStatement,
        he.read (endsExpression_of_mem rest hnext hmark)]
      rfl

/-- What a statement without a word of its own begins with. -/
theorem SpellsSimple.exists_first {s : Stmt} {tokens : List Token} (h : SpellsSimple s tokens)
    (hlexical : ∀ token ∈ tokens, token.IsLexical) :
    ∃ first tail, tokens = first :: tail ∧ first.kind ≠ .printCall ∧
      (first.lexeme ∉ openers ∨ ∃ modifier : Modifier, first.lexeme = modifier.word) := by
  cases h with
  | expression he =>
      obtain ⟨first, tail, htokens, hopens, hprint, -⟩ := he.begins goesOn_nil
      exact ⟨first, tail, htokens, hprint, .inl hopens⟩
  | declare hdecl _ =>
      cases hdecl with
      | mk hwords htype hname hinit =>
          cases hwords with
          | nil =>
              obtain ⟨head, tail, rfl, hopens, hprint⟩ := htype.exists_first
              exact ⟨head, _, rfl, hprint, .inl hopens⟩
          | @cons modifier first _ _ hword _ =>
              have hkeyword : (modifier.word, TokenKind.accessModifier) ∈ keywords := by
                cases modifier <;> decide
              have hkind := (hlexical first (by simp)).kind_of_keyword (hword ▸ hkeyword)
              refine ⟨first, _, rfl, ?_, .inr ⟨modifier, hword⟩⟩
              rcases hkind with hkind | hkind <;> simp [hkind]

/-- Behind the modifiers of a statement there is no class. -/
theorem SpellsSimple.no_class {s : Stmt} {tokens : List Token} (rest : List Token)
    (h : SpellsSimple s tokens) {next : Token} (hnext : next.IsLexical)
    (hmark : next.lexeme ∈ enders) :
    nextIs "class" (modifiers (tokens ++ next :: rest)).rest = false := by
  cases h with
  | expression he =>
      obtain ⟨first, tail, rfl, hopens, -, -, hbehind, -⟩ :=
        he.begins (goesOn_of_mem_enders rest hnext hmark)
      rw [hbehind]
      exact nextIs_eq_false _ hopens (by decide)
  | declare hdecl _ =>
      cases hdecl with
      | mk hwords htype _ _ =>
          obtain ⟨head, tail, rfl, hopens, -⟩ := htype.exists_first
          rw [List.append_assoc, List.cons_append, List.cons_append,
            (hwords.read _ (ofWord?_of_not_mem hopens)).2]
          exact nextIs_eq_false _ hopens (by decide)

theorem modifier_ne_mark (modifier : Modifier) {text : String} (h : text ∈ symbols.map Prod.fst) :
    modifier.word ≠ text := by
  have hall : ∀ modifier ∈ Modifier.all, modifier.word ∉ symbols.map Prod.fst := by decide
  have hmem : modifier ∈ Modifier.all := by cases modifier <;> decide
  exact fun heq => hall modifier hmem (heq ▸ h)

theorem SpellsSimple.nextIs_eq_false {s : Stmt} {tokens : List Token} (rest : List Token)
    (h : SpellsSimple s tokens) (hlexical : ∀ token ∈ tokens, token.IsLexical) {text : String}
    (hopener : text ∈ openers) (hsymbol : text ∈ symbols.map Prod.fst) :
    nextIs text (tokens ++ rest) = false := by
  obtain ⟨first, tail, rfl, -, hopens | ⟨modifier, hword⟩⟩ := h.exists_first hlexical
  · exact Grammar.nextIs_eq_false _ hopens hopener
  · exact decide_eq_false (hword ▸ modifier_ne_mark modifier hsymbol)

theorem SpellsStart.read {init : Option Stmt} {tokens : List Token} {next : Token}
    (rest : List Token) (h : SpellsStart init tokens)
    (hlexical : ∀ token ∈ tokens, token.IsLexical) (hnext : next.IsLexical)
    (hmark : next.lexeme = ";") :
    (forInit (tokens ++ next :: rest)).outcome = .ok (init, next :: rest) := by
  have hend : next.lexeme ∈ enders := hmark ▸ by decide
  rw [outcome_forInit]
  cases h with
  | none => exact if_pos (decide_eq_true hmark)
  | some hsimple hfits =>
      rw [hsimple.nextIs_eq_false _ hlexical (by decide) (by decide), if_neg Bool.false_ne_true]
      cases hsimple with
      | expression he =>
          obtain ⟨first, tail, rfl, hopens, -, -, -, hbegins⟩ :=
            he.begins (goesOn_of_mem_enders rest hnext hend)
          have hread := he.read (endsExpression_of_mem rest hnext hend)
          have hfinal : nextIs "final" (first :: tail ++ next :: rest) = false :=
            Grammar.nextIs_eq_false _ hopens (by decide)
          rw [hbegins, hfinal, outcome_expressionStatement, hread]
          rfl
      | @declare decl _ hdecl hvoid =>
          obtain ⟨hread, -⟩ := hdecl.read rest hnext hend
          have hbegins : (beginsDeclaration (tokens ++ next :: rest) ||
              nextIs "final" (tokens ++ next :: rest)) = true := by
            rw [Bool.or_eq_true]
            cases hmodifiers : decl.modifiers with
            | nil => exact .inl (hdecl.begins _ hmodifiers (hvoid hmodifiers))
            | cons modifier mods =>
                have hfinal : modifier = .final := hfits modifier (by rw [hmodifiers]; rfl)
                cases hdecl with
                | mk hwords _ _ _ =>
                    dsimp only at hmodifiers
                    subst hmodifiers hfinal
                    cases hwords with
                    | cons hword _ => exact .inr (decide_eq_true hword)
          rw [if_pos hbegins, hread]
          rfl

theorem SpellsHeader.read {header : ForHeader} {tokens : List Token} (rest : List Token)
    (h : SpellsHeader header tokens) (hlexical : ∀ token ∈ tokens, token.IsLexical) :
    (forHeader (tokens ++ rest)).outcome = .ok (header, rest) := by
  cases h with
  | @mk opening first second closing _ start condition update hopening hstart hfirst hcondition
      hsecond hupdate hclosing =>
      simp only [List.forall_mem_cons, List.forall_mem_append] at hlexical
      obtain ⟨-, hinit, hfirstLex, -, hsecondLex, hlist, hclosingLex, -⟩ := hlexical
      have htokens :
          opening :: (start ++ first :: (condition ++ second :: (update ++ [closing]))) ++ rest =
            opening :: (start ++ first :: (condition ++ second ::
              (update ++ closing :: rest))) := by simp
      rw [htokens, outcome_forHeader, outcome_expect _ hopening, Outcome.ok_andThen,
        hstart.read _ hinit hfirstLex hfirst, Outcome.ok_andThen, outcome_expect _ hfirst,
        Outcome.ok_andThen, hcondition.read _ hsecondLex hsecond, Outcome.ok_andThen,
        outcome_expect _ hsecond, Outcome.ok_andThen,
        expressions_read hupdate hlist rest hclosingLex hclosing, Outcome.ok_andThen,
        outcome_expect _ hclosing, Outcome.ok_andThen]

end MiniJava.Grammar
