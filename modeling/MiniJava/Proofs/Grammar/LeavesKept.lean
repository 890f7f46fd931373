import Mathlib.Data.List.Perm.Subperm
import MiniJava.Proofs.Grammar.Labels
import MiniJava.Proofs.Grammar.ProgramSound

/-!
# What becomes of the identifiers and literals of a source

No identifier or literal of a program is made up or doubled, but some of its source can be lost or
moved: a second `default` takes the place of the first, a `default` in front of a `case` is read
behind it, and a cut-off keyword is an identifier of the table that is read as the keyword. A source
without these is read off its tree as it is written.
-/

namespace MiniJava

open Lexeme

namespace Grammar

/-- The leaves are among those of the tokens, and they are those of the tokens unless a `default`
is in front of another label or a keyword is cut off. -/
structure Keeps (leaves : List Leaf) (tokens : List Token) : Prop where
  within : leaves.Subperm (leavesOf tokens)
  whole : (∀ token ∈ tokens, token.IsRegular) → defaultsLast tokens = true →
    leaves = leavesOf tokens

theorem leavesOf_append (front back : List Token) :
    leavesOf (front ++ back) = leavesOf front ++ leavesOf back := List.filterMap_append

theorem leavesOf_cons (token : Token) (rest : List Token) :
    leavesOf (token :: rest) = token.leaf?.toList ++ leavesOf rest := by
  rw [leavesOf, List.filterMap_cons]
  cases token.leaf? <;> rfl

def silentWords : List String :=
  ((keywords ++ symbols).filter fun entry => !entry.2.isLeaf).map Prod.fst

theorem leaf?_of_silent {token : Token} (h : token.IsRegular)
    (hword : token.lexeme ∈ silentWords) : token.leaf? = none := by
  obtain ⟨⟨text, kind⟩, hentry, htext⟩ := List.mem_map.mp hword
  obtain ⟨hmem, hsilent⟩ := List.mem_filter.mp hentry
  dsimp only at htext
  subst htext
  have hkind : token.kind = kind := by
    rcases List.mem_append.mp hmem with hkeyword | hsymbol
    · exact h.kind_of_keyword hkeyword
    · exact h.lexical.kind_of_symbol hsymbol
  rw [Token.leaf?, hkind, if_neg (by simpa using hsilent)]

namespace Keeps

theorem of_eq {leaves : List Leaf} {tokens : List Token} (h : leavesOf tokens = leaves) :
    Keeps leaves tokens := ⟨h ▸ .refl _, fun _ _ => h.symm⟩

theorem nil : Keeps [] [] := .of_eq rfl

theorem append {front back : List Leaf} {tokens more : List Token} (hfront : Keeps front tokens)
    (hback : Keeps back more) : Keeps (front ++ back) (tokens ++ more) where
  within := leavesOf_append tokens more ▸ hfront.within.append hback.within
  whole := by
    intro hregular hlast
    obtain ⟨htokens, hmore⟩ := List.forall_mem_append.mp hregular
    obtain ⟨hleft, hright⟩ := defaultsLast_append hlast
    rw [leavesOf_append, hfront.whole htokens hleft, hback.whole hmore hright]

/-- A keyword or a mark is no leaf unless it is cut off. -/
theorem word {token : Token} {text : String} (hword : token.lexeme = text)
    (hsilent : text ∈ silentWords) : Keeps [] [token] where
  within := List.nil_subperm
  whole := by
    intro hregular _
    have htoken := hregular token (List.mem_singleton_self token)
    rw [leavesOf_cons, leaf?_of_silent htoken (hword ▸ hsilent)]
    rfl

theorem leaf {token : Token} {leaf : Leaf} (h : token.leaf? = some leaf) : Keeps [leaf] [token] :=
  .of_eq (by rw [leavesOf_cons, h]; rfl)

theorem cons {leaves : List Leaf} {token : Token} {rest : List Token} {text : String}
    (hword : token.lexeme = text) (hsilent : text ∈ silentWords) (h : Keeps leaves rest) :
    Keeps leaves (token :: rest) :=
  (word hword hsilent).append h

theorem closed {leaves : List Leaf} {tokens more : List Token} (h : Keeps leaves tokens)
    (hmore : Keeps [] more) : Keeps leaves (tokens ++ more) := by
  have hall := h.append hmore
  rwa [List.append_nil] at hall

theorem snoc {leaves : List Leaf} {token : Token} {tokens : List Token} {text : String}
    (h : Keeps leaves tokens) (hword : token.lexeme = text) (hsilent : text ∈ silentWords) :
    Keeps leaves (tokens ++ [token]) :=
  h.closed (word hword hsilent)

theorem name {leaves : List Leaf} {name : Token} {rest : List Token} (hname : IsName name)
    (h : Keeps leaves rest) : Keeps ((.identifier, name.lexeme) :: leaves) (name :: rest) := by
  have hleaf : name.leaf? = some (.identifier, name.lexeme) := by
    rw [Token.leaf?, hname.kind]
    rfl
  exact (leaf hleaf).append h

end Keeps

theorem Atom.leaf?_eq {token : Token} {e : Expr} (h : Atom token e) (hlex : token.IsLexical) :
    token.leaf?.toList = e.leaves := by
  cases h with
  | number hkind => simp [Token.leaf?, hkind, TokenKind.isLeaf, Expr.leaves, Literal.leaf]
  | string hkind htext =>
      simp [Token.leaf?, hkind, htext, TokenKind.isLeaf, Expr.leaves, Literal.leaf]
  | char hkind htext =>
      simp [Token.leaf?, hkind, htext, TokenKind.isLeaf, Expr.leaves, Literal.leaf]
  | bool hkind htext =>
      simp [Token.leaf?, hkind, htext, TokenKind.isLeaf, Expr.leaves, Literal.leaf]
  | null hkind =>
      simp [Token.leaf?, hkind, hlex.lexeme_of_null hkind, TokenKind.isLeaf, Expr.leaves,
        Literal.leaf]
  | name hkind => simp [Token.leaf?, hkind, TokenKind.isLeaf, Expr.leaves]

theorem Derives.leavesOf_eq {level : Level} {tokens : List Token} {e : Expr}
    (h : Derives level tokens e) (hregular : ∀ token ∈ tokens, token.IsRegular) :
    leavesOf tokens = e.leaves := by
  have hname : ∀ {token : Token}, token.kind = .identifier →
      token.leaf?.toList = [(.identifier, token.lexeme)] := fun hkind => by
    simp [Token.leaf?, hkind, TokenKind.isLeaf]
  have hsilent : ∀ {token : Token}, token.IsRegular → token.lexeme ∈ silentWords →
      token.leaf?.toList = [] := fun htoken hword => by rw [leaf?_of_silent htoken hword]; rfl
  have hbinary : ∀ op : BinaryOp, op.symbol ∈ silentWords := fun op => by cases op <;> decide
  have hunary : ∀ op : UnaryOp, op.symbol ∈ silentWords := fun op => by cases op <;> decide
  have hstep : ∀ op : StepOp, op.symbol ∈ silentWords := fun op => by cases op <;> decide
  induction h with
  | @assign target sign op tokens value hkind hop _ ih =>
      simp only [List.forall_mem_cons] at hregular
      have hsign : sign.leaf?.toList = [] := by
        cases hop with
        | plain hassign => simp [Token.leaf?, hassign, TokenKind.isLeaf]
        | compound hassign => simp [Token.leaf?, hassign, TokenKind.isLeaf]
      rw [leavesOf_cons, leavesOf_cons, hname hkind, hsign, ih hregular.2.2]
      rfl
  | loosest _ ih => exact ih hregular
  | @binary sign op left right lhs rhs hsign _ _ ihl ihr =>
      simp only [List.forall_mem_append, List.forall_mem_cons] at hregular
      rw [leavesOf_append, leavesOf_cons, hsilent hregular.2.1 (hsign ▸ hbinary op),
        ihl hregular.1, ihr hregular.2.2]
      rfl
  | tighter _ ih => exact ih hregular
  | tightest _ ih => exact ih hregular
  | @sign sign op tokens e hsign _ ih =>
      simp only [List.forall_mem_cons] at hregular
      rw [leavesOf_cons, hsilent hregular.1 (hsign ▸ hunary op), ih hregular.2]
      rfl
  | @stepBefore sign target op hsign hkind =>
      simp only [List.forall_mem_cons] at hregular
      rw [leavesOf_cons, leavesOf_cons, hsilent hregular.1 (hsign ▸ hstep op), hname hkind]
      rfl
  | @stepBehind sign op tokens target position _ hsign ih =>
      simp only [List.forall_mem_append, List.forall_mem_singleton] at hregular
      rw [leavesOf_append, leavesOf_cons, hsilent hregular.2 (hsign ▸ hstep op), ih hregular.1]
      rfl
  | operand _ ih => exact ih hregular
  | @atom token _ hatom =>
      simp only [List.forall_mem_singleton] at hregular
      rw [leavesOf_cons, hatom.leaf?_eq hregular.lexical]
      exact List.append_nil _
  | @group opening closing tokens e hopening _ hclosing ih =>
      simp only [List.forall_mem_cons, List.forall_mem_append] at hregular
      rw [leavesOf_cons, leavesOf_append, leavesOf_cons,
        hsilent hregular.1 (hopening ▸ by decide), hsilent hregular.2.2.1 (hclosing ▸ by decide),
        ih hregular.2.1]
      exact List.append_nil _

theorem SpellsExpr.keeps {e : Expr} {tokens : List Token} (h : SpellsExpr e tokens) :
    Keeps e.leaves tokens := .of_eq (h.derives.leavesOf_eq h.regular)

theorem SpellsOption.keeps {value : Option Expr} {tokens : List Token}
    (h : SpellsOption value tokens) : Keeps (optionLeaves value) tokens := by
  cases h with
  | none => exact .nil
  | some he => exact he.keeps

theorem SpellsGroup.keeps {e : Expr} {tokens : List Token} (h : SpellsGroup e tokens) :
    Keeps e.leaves tokens := by
  cases h with
  | mk hopening he hclosing =>
      exact .cons hopening (by decide) (he.keeps.snoc hclosing (by decide))

theorem Listed.keeps {α : Type} {spells : α → List Token → Prop} {leaves : α → List Leaf}
    {list : List α} {tokens : List Token} (h : Listed spells list tokens)
    (hspells : ∀ a tokens, spells a tokens → Keeps (leaves a) tokens) :
    Keeps (list.flatMap leaves) tokens := by
  cases h with
  | none => exact .nil
  | some hlist =>
      induction hlist with
      | one ha =>
          rw [List.flatMap_cons, List.flatMap_nil, List.append_nil]
          exact hspells _ _ ha
      | more ha hcomma _ ih => exact (hspells _ _ ha).append (.cons hcomma (by decide) ih)

theorem SpellsModifiers.keeps {modifiers : List Modifier} {tokens : List Token}
    (h : SpellsModifiers modifiers tokens) : Keeps [] tokens := by
  have hword : ∀ modifier : Modifier, modifier.word ∈ silentWords := fun modifier => by
    cases modifier <;> decide
  induction h with
  | nil => exact .nil
  | cons hlexeme _ ih => exact .cons hlexeme (hword _) ih

theorem SpellsDimensions.keeps {n : Nat} {tokens : List Token} (h : SpellsDimensions n tokens) :
    Keeps [] tokens := by
  induction h with
  | none => exact .nil
  | more hleft hright _ ih => exact .cons hleft (by decide) (.cons hright (by decide) ih)

theorem SpellsType.keeps {type : TypeName} {tokens : List Token} (h : SpellsType type tokens) :
    Keeps type.leaves tokens := by
  cases h with
  | @mk head n tokens hhead hregular hdims =>
      by_cases hkind : head.kind = .identifier
      · have hleaves : TypeName.leaves ⟨head.lexeme, n⟩ = [(.identifier, head.lexeme)] :=
          if_pos (hregular.plain hkind)
        rw [hleaves]
        exact .name ⟨hkind, hregular⟩ hdims.keeps
      · obtain ⟨hkeyword, hkept⟩ : (head.lexeme, head.kind) ∈ keywords ∧
            head.kind.isLeaf = false := by
          simp only [namesType, Bool.or_eq_true, decide_eq_true_eq] at hhead
          rcases hhead with (hdata | hname) | hvoid
          · exact ⟨hregular.lexical.mem_keywords (hdata ▸ by decide), hdata ▸ rfl⟩
          · exact absurd hname hkind
          · have hword : (head.lexeme, TokenKind.reservedWord) ∈ keywords := hvoid ▸ by decide
            have hreserved := hregular.kind_of_keyword hword
            exact ⟨hreserved ▸ hword, hreserved ▸ rfl⟩
        have hleaves : TypeName.leaves ⟨head.lexeme, n⟩ = [] :=
          if_neg (by simp [lookup_of_mem_keywords _ hkeyword])
        have hsilent : leavesOf [head] = [] := by
          rw [leavesOf_cons, Token.leaf?, hkept]
          rfl
        rw [hleaves]
        exact (Keeps.of_eq hsilent).append hdims.keeps

theorem SpellsVariable.keeps {decl : VarDecl} {tokens : List Token}
    (h : SpellsVariable decl tokens) : Keeps decl.leaves tokens := by
  cases h with
  | mk hmods htype hname hinit =>
      refine hmods.keeps.append (htype.keeps.append (.name hname ?_))
      cases hinit with
      | none => exact .nil
      | some hsign he => exact .cons hsign (by decide) he.keeps

theorem SpellsParam.keeps {param : Param} {tokens : List Token} (h : SpellsParam param tokens) :
    Keeps param.leaves tokens := by
  cases h with
  | mk htype hname => exact htype.keeps.append (.name hname .nil)

theorem SpellsSimple.keeps {s : Stmt} {tokens : List Token} (h : SpellsSimple s tokens) :
    Keeps s.leaves tokens := by
  cases h with
  | declare hdecl _ =>
      rw [Stmt.leaves]
      exact hdecl.keeps
  | expression he =>
      rw [Stmt.leaves]
      exact he.keeps

theorem SpellsStart.keeps {init : Option Stmt} {tokens : List Token}
    (h : SpellsStart init tokens) : Keeps (branchLeaves init) tokens := by
  cases h with
  | none =>
      rw [branchLeaves]
      exact .nil
  | some hsimple _ =>
      rw [branchLeaves]
      exact hsimple.keeps

theorem SpellsHeader.keeps {header : ForHeader} {tokens : List Token}
    (h : SpellsHeader header tokens) :
    Keeps (branchLeaves header.init ++
      (optionLeaves header.condition ++ header.update.flatMap Expr.leaves)) tokens := by
  cases h with
  | mk hopening hstart hfirst hcondition hsecond hupdate hclosing =>
      have hlist := hupdate.keeps fun _ _ he => he.keeps
      refine .cons hopening (by decide) (hstart.keeps.append (.cons hfirst (by decide) ?_))
      exact hcondition.keeps.append (.cons hsecond (by decide) (hlist.snoc hclosing (by decide)))

def Phrase.leaves : Phrase → List Leaf
  | .statement s => s.leaves
  | .statements body | .block body => allLeaves body
  | .clauses list => catchesLeaves list
  | .sections body => casesLeaves body.cases ++ partLeaves body.default

/-- A label that does not follow is not there: only the closing brace is left. -/
theorem sections_of_labelFollows {body : SwitchBody} {tokens : List Token}
    (h : Spells (.sections body) tokens) (hnone : labelFollows 0 tokens = false) :
    body = ⟨[], none⟩ ∧ ∃ closing : Token, closing.lexeme = "\x7d" ∧ tokens = [closing] := by
  cases h with
  | done hclosing => exact ⟨rfl, _, hclosing, rfl⟩
  | label hword => simp [labelFollows, hword] at hnone
  | default hword => simp [labelFollows, hword] at hnone

/-- A `default` keeps its statements where they are only if it is the last label. -/
theorem keeps_default {word colon : Token} {body : List Stmt} {others : SwitchBody}
    {tokens more : List Token} (hword : word.lexeme = "default") (hcolon : colon.lexeme = ":")
    (hbody : Spells (.statements body) tokens) (hothers : Spells (.sections others) more)
    (ihbody : Keeps (allLeaves body) tokens)
    (ih : Keeps (casesLeaves others.cases ++ partLeaves others.default) more) :
    Keeps (casesLeaves others.cases ++ partLeaves (others.default.or (some body)))
      (word :: colon :: (tokens ++ more)) where
  within := by
    have hall : Keeps (allLeaves body ++ (casesLeaves others.cases ++ partLeaves others.default))
        (word :: colon :: (tokens ++ more)) :=
      .cons hword (by decide) (.cons hcolon (by decide) (ihbody.append ih))
    refine List.Subperm.trans ?_ hall.within
    cases hdefault : others.default with
    | none =>
        rw [partLeaves, List.append_nil, Option.none_or, partLeaves]
        exact List.perm_append_comm.subperm
    | some last =>
        rw [Option.some_or]
        exact (List.sublist_append_right ..).subperm
  whole := by
    intro hregular hlast
    have hnone : labelFollows 0 (colon :: (tokens ++ more)) = false := by
      rw [defaultsLast, Bool.and_eq_true, hword] at hlast
      simpa using hlast.1
    rw [labelFollows_skip _ _ (hcolon ▸ by decide), hbody.passes 0 more] at hnone
    obtain ⟨rfl, closing, hclosing, rfl⟩ := sections_of_labelFollows hothers hnone
    have hkept : Keeps (allLeaves body) (word :: colon :: (tokens ++ [closing])) :=
      .cons hword (by decide) (.cons hcolon (by decide) (ihbody.snoc hclosing (by decide)))
    exact hkept.whole hregular hlast

theorem Spells.keeps {phrase : Phrase} {tokens : List Token} (h : Spells phrase tokens) :
    Keeps phrase.leaves tokens := by
  induction h with
  | simple hsimple hsemicolon => exact hsimple.keeps.snoc hsemicolon (by decide)
  | print hkind hregular hopening hargs hclosing hsemicolon =>
      have hlist := hargs.keeps fun _ _ he => he.keeps
      have hcall : Keeps [] [_] := .of_eq (by rw [leavesOf_cons, Token.leaf?, hkind]; rfl)
      refine hcall.append (.cons hopening (by decide) ?_)
      exact hlist.closed (.cons hclosing (by decide) (.word hsemicolon (by decide)))
  | empty hsemicolon => exact .word hsemicolon (by decide)
  | block _ ih => exact ih
  | ifThen hword he _ ih =>
      rw [Phrase.leaves, Stmt.leaves, branchLeaves, List.append_nil]
      exact .cons hword (by decide) (he.keeps.append ih)
  | ifElse hword he _ _ hother _ ihthen ihelse =>
      exact .cons hword (by decide) (he.keeps.append (ihthen.append (.cons hother (by decide)
        ihelse)))
  | whileLoop hword he _ ih => exact .cons hword (by decide) (he.keeps.append ih)
  | doWhile hword _ hagain he hsemicolon ih =>
      exact .cons hword (by decide) (ih.append (.cons hagain (by decide)
        (he.keeps.snoc hsemicolon (by decide))))
  | forLoop hword hheader _ ih => exact .cons hword (by decide) (hheader.keeps.append ih)
  | switch hword he hopening _ ih =>
      exact .cons hword (by decide) (he.keeps.append (.cons hopening (by decide) ih))
  | tryCatch hword _ _ _ ihbody ihclauses =>
      rw [Phrase.leaves, Stmt.leaves, partLeaves, List.append_nil]
      exact .cons hword (by decide) (ihbody.append ihclauses)
  | tryFinally hword _ _ hlast _ ihbody ihclauses ihcleanup =>
      exact .cons hword (by decide) (ihbody.append (ihclauses.append (.cons hlast (by decide)
        ihcleanup)))
  | returns hword hvalue hsemicolon =>
      exact .cons hword (by decide) (hvalue.keeps.snoc hsemicolon (by decide))
  | breaks hword hsemicolon => exact .cons hword (by decide) (.word hsemicolon (by decide))
  | continues hword hsemicolon => exact .cons hword (by decide) (.word hsemicolon (by decide))
  | nil => exact .nil
  | cons _ _ ihfirst ih => exact ihfirst.append ih
  | braces hopening _ hclosing ih =>
      exact .cons hopening (by decide) (ih.snoc hclosing (by decide))
  | noClause => exact .nil
  | clause hword hopening htype hname hclosing _ _ ihbody ih =>
      refine .cons hword (by decide) (.cons hopening (by decide) (htype.keeps.append ?_))
      exact .name hname (.cons hclosing (by decide) (ihbody.append ih))
  | done hclosing => exact .word hclosing (by decide)
  | label hword he hcolon _ _ ihbody ih =>
      rw [Phrase.leaves, casesLeaves, List.append_assoc, List.append_assoc]
      exact .cons hword (by decide) (he.keeps.append (.cons hcolon (by decide) (ihbody.append ih)))
  | default hword hcolon hbody hothers ihbody ih =>
      exact keeps_default hword hcolon hbody hothers ihbody ih

theorem SpellsMethod.keeps {decl : Method} {tokens : List Token} (h : SpellsMethod decl tokens) :
    Keeps decl.leaves tokens := by
  cases h with
  | mk hname hopening hparams hclosing hbody =>
      have hlist := hparams.keeps fun _ _ hparam => hparam.keeps
      exact .name hname (.cons hopening (by decide) (hlist.append (.cons hclosing (by decide)
        hbody.keeps)))

def ClassPhrase.leaves : ClassPhrase → List Leaf
  | .decl inner => ClassDecl.leaves inner
  | .members _ list => membersLeaves list

theorem SpellsClass.keeps {phrase : ClassPhrase} {tokens : List Token}
    (h : SpellsClass phrase tokens) : Keeps phrase.leaves tokens := by
  induction h with
  | decl hword hname hopening _ ih =>
      rw [ClassPhrase.leaves, ClassDecl.leaves]
      exact .cons hword (by decide) (.name hname (.cons hopening (by decide) ih))
  | done hclosing =>
      rw [ClassPhrase.leaves, membersLeaves]
      exact .word hclosing (by decide)
  | skip hsemicolon _ ih => exact .cons hsemicolon (by decide) ih
  | field hdecl hsemicolon _ ih =>
      rw [ClassPhrase.leaves, membersLeaves]
      exact hdecl.keeps.append (.cons hsemicolon (by decide) ih)
  | method hmods hreturn htype hmethod _ ih =>
      have hall := hmods.keeps.append (htype.keeps.append (hmethod.keeps.append ih))
      rwa [ClassPhrase.leaves, membersLeaves, hreturn, returnLeaves]
  | constructor hmods hreturn _ hmethod _ ih =>
      have hall := hmods.keeps.append (hmethod.keeps.append ih)
      rwa [ClassPhrase.leaves, membersLeaves, hreturn, returnLeaves]
  | nested hmods _ _ ihdecl ih =>
      rw [ClassPhrase.leaves, membersLeaves]
      exact hmods.keeps.append (ihdecl.append ih)

theorem SpellsItems.keeps {list : List Item} {tokens : List Token} (h : SpellsItems list tokens) :
    Keeps (list.flatMap Item.leaves) tokens := by
  induction h with
  | nil => exact .nil
  | declaration hmods hdecl _ ih =>
      rw [List.flatMap_cons]
      exact hmods.keeps.append (hdecl.keeps.append ih)
  | statement hs _ ih => exact hs.keeps.append ih

end Grammar

namespace Program

open Grammar

/-- The identifiers and literals of a program are among those of its source, and they are those of
its source in their order if no `default` is in front of another label of its switch and no
identifier is a cut-off keyword. -/
theorem leaves_of_source {source : String} {program : Program}
    (h : ofSource source = .ok program) :
    program.leaves.Subperm (leavesOf (tokenize source)) ∧
      ((∀ token ∈ tokenize source, token.IsPlain) → defaultsLast (tokenize source) = true →
        program.leaves = leavesOf (tokenize source)) := by
  have hkeeps := (spellsItems_of_ofTokens (isTable_tokenize source) h).keeps
  refine ⟨hkeeps.within, fun hplain hlast => hkeeps.whole ?_ hlast⟩
  exact fun token hmem => ⟨Token.isLexical_of_mem_tokenize hmem, hplain token hmem⟩

/-- A `default` behind all cases is read where it stands. -/
theorem leaves_of_source_default_last :
    ∃ program, ofSource "switch (x) \x7b case 1: T y = a; break; default: y = 2; \x7d" =
        .ok program ∧
      program.leaves =
        leavesOf (tokenize "switch (x) \x7b case 1: T y = a; break; default: y = 2; \x7d") := by
  obtain ⟨program, hprogram, -⟩ := exists_program
    "switch (x) \x7b case 1: T y = a; break; default: y = 2; \x7d" (fun _ => True)
    (by decide +kernel)
  exact ⟨program, hprogram,
    (leaves_of_source hprogram).2 (by decide +kernel) (by decide +kernel)⟩

/-- The statements of the first of two defaults are lost. -/
theorem leaves_ne_of_second_default :
    ∃ program, ofSource "switch (x) \x7b default: a; default: b; \x7d" = .ok program ∧
      program.leaves ≠ leavesOf (tokenize "switch (x) \x7b default: a; default: b; \x7d") :=
  exists_program _ (fun program =>
    program.leaves ≠ leavesOf (tokenize "switch (x) \x7b default: a; default: b; \x7d"))
    (by decide +kernel)

end Program

end MiniJava
