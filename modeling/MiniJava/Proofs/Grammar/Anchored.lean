import MiniJava.Proofs.Grammar.LeavesKept
import MiniJava.Proofs.Syntax.Anchors

/-!
# Positions are those of tokens

What a program has at a position is the token at this position of its source. No token is used
twice, and the tokens of a program stand in the order of its fields if every `default` is the last
label of its switch.
-/

namespace MiniJava

theorem Anchor.positions_of_holds {anchors : List Anchor} {chosen : List Token}
    (h : List.Forall₂ Anchor.Holds anchors chosen) :
    anchors.map Anchor.position = chosen.map Token.position := by
  induction h with
  | nil => rfl
  | cons hfirst _ ih => rw [List.map_cons, List.map_cons, ih, hfirst.1]

namespace Grammar

/-- Each anchor has a token of its own, and these tokens are in the order of the anchors unless a
`default` is in front of another label. -/
structure Anchored (anchors : List Anchor) (tokens : List Token) : Prop where
  within : ∃ chosen : List Token, chosen.Subperm tokens ∧ List.Forall₂ Anchor.Holds anchors chosen
  ordered : defaultsLast tokens = true →
    ∃ chosen : List Token, chosen.Sublist tokens ∧ List.Forall₂ Anchor.Holds anchors chosen

namespace Anchored

variable {anchors others : List Anchor} {tokens more : List Token} {token : Token}

/-- No token is needed. -/
theorem none (tokens : List Token) : Anchored [] tokens :=
  ⟨⟨[], List.nil_subperm, .nil⟩, fun _ => ⟨[], List.nil_sublist _, .nil⟩⟩

theorem one {anchor : Anchor} (h : anchor.Holds token) : Anchored [anchor] [token] :=
  ⟨⟨[token], .refl _, .cons h .nil⟩, fun _ => ⟨[token], .refl _, .cons h .nil⟩⟩

theorem append (h : Anchored anchors tokens) (hmore : Anchored others more) :
    Anchored (anchors ++ others) (tokens ++ more) where
  within := by
    obtain ⟨chosen, hchosen, hholds⟩ := h.within
    obtain ⟨further, hfurther, hothers⟩ := hmore.within
    exact ⟨chosen ++ further, hchosen.append hfurther, List.rel_append hholds hothers⟩
  ordered := by
    intro hlast
    obtain ⟨hleft, hright⟩ := defaultsLast_append hlast
    obtain ⟨chosen, hchosen, hholds⟩ := h.ordered hleft
    obtain ⟨further, hfurther, hothers⟩ := hmore.ordered hright
    exact ⟨chosen ++ further, hchosen.append hfurther, List.rel_append hholds hothers⟩

/-- Tokens in front that are not needed. -/
theorem behind (front : List Token) (h : Anchored anchors tokens) :
    Anchored anchors (front ++ tokens) := (none front).append h

theorem skip (token : Token) (h : Anchored anchors tokens) : Anchored anchors (token :: tokens) :=
  h.behind [token]

/-- Tokens at the end that are not needed. -/
theorem before (rest : List Token) (h : Anchored anchors tokens) :
    Anchored anchors (tokens ++ rest) := by
  have hall := h.append (none rest)
  rwa [List.append_nil] at hall

theorem cons {anchor : Anchor} (hanchor : anchor.Holds token) (h : Anchored anchors tokens) :
    Anchored (anchor :: anchors) (token :: tokens) := (one hanchor).append h

theorem keyword {word : String} (hword : token.lexeme = word) (h : Anchored anchors tokens) :
    Anchored (.keyword word token.position :: anchors) (token :: tokens) :=
  cons ⟨rfl, hword⟩ h

theorem identifier (hkind : token.kind = .identifier) (h : Anchored anchors tokens) :
    Anchored (.name token.lexeme token.position :: anchors) (token :: tokens) :=
  cons ⟨rfl, by rw [Token.leaf?, hkind]; rfl⟩ h

theorem exists_token (h : Anchored anchors tokens) {anchor : Anchor} (hmem : anchor ∈ anchors) :
    ∃ token ∈ tokens, anchor.Holds token := by
  obtain ⟨chosen, hchosen, hholds⟩ := h.within
  have hfound : ∃ token ∈ chosen, anchor.Holds token := by
    clear hchosen h
    induction hholds with
    | nil => cases hmem
    | cons hfirst _ ih =>
        rcases List.mem_cons.mp hmem with rfl | hlater
        · exact ⟨_, List.mem_cons_self, hfirst⟩
        · obtain ⟨token, hin, htoken⟩ := ih hlater
          exact ⟨token, List.mem_cons_of_mem _ hin, htoken⟩
  obtain ⟨token, hin, htoken⟩ := hfound
  exact ⟨token, hchosen.subset hin, htoken⟩

end Anchored

theorem Atom.anchored {token : Token} {e : Expr} (h : Atom token e) (hlex : token.IsLexical) :
    Anchored e.anchors [token] := by
  have hleaf := h.leaf?_eq hlex
  cases h <;> exact .one ⟨rfl, Option.toList_eq_singleton_iff.mp hleaf⟩

theorem Derives.anchored {level : Level} {tokens : List Token} {e : Expr}
    (h : Derives level tokens e) (hregular : ∀ token ∈ tokens, token.IsRegular) :
    Anchored e.anchors tokens := by
  induction h with
  | assign hkind _ _ ih =>
      simp only [List.forall_mem_cons] at hregular
      exact .identifier hkind (.skip _ (ih hregular.2.2))
  | loosest _ ih => exact ih hregular
  | binary _ _ _ ihl ihr =>
      simp only [List.forall_mem_append, List.forall_mem_cons] at hregular
      exact (ihl hregular.1).append (.skip _ (ihr hregular.2.2))
  | tighter _ ih => exact ih hregular
  | tightest _ ih => exact ih hregular
  | sign _ _ ih => exact .skip _ (ih (List.forall_mem_cons.mp hregular).2)
  | stepBefore _ hkind => exact .skip _ (.identifier hkind (.none []))
  | stepBehind _ _ ih => exact .before _ (ih (List.forall_mem_append.mp hregular).1)
  | operand _ ih => exact ih hregular
  | atom hatom => exact hatom.anchored (List.forall_mem_singleton.mp hregular).lexical
  | group _ _ _ ih =>
      simp only [List.forall_mem_cons, List.forall_mem_append] at hregular
      exact .skip _ (.before _ (ih hregular.2.1))

theorem SpellsExpr.anchored {e : Expr} {tokens : List Token} (h : SpellsExpr e tokens) :
    Anchored e.anchors tokens := h.derives.anchored h.regular

theorem SpellsOption.anchored {value : Option Expr} {tokens : List Token}
    (h : SpellsOption value tokens) : Anchored (optionAnchors value) tokens := by
  cases h with
  | none => exact .none []
  | some he => exact he.anchored

theorem SpellsGroup.anchored {e : Expr} {tokens : List Token} (h : SpellsGroup e tokens) :
    Anchored e.anchors tokens := by
  cases h with
  | mk _ he _ => exact .skip _ (.before _ he.anchored)

theorem Listed.anchored {α : Type} {spells : α → List Token → Prop} {anchors : α → List Anchor}
    {list : List α} {tokens : List Token} (h : Listed spells list tokens)
    (hspells : ∀ a tokens, spells a tokens → Anchored (anchors a) tokens) :
    Anchored (list.flatMap anchors) tokens := by
  cases h with
  | none => exact .none []
  | some hlist =>
      induction hlist with
      | one ha =>
          rw [List.flatMap_cons, List.flatMap_nil, List.append_nil]
          exact hspells _ _ ha
      | more ha _ _ ih => exact (hspells _ _ ha).append (.skip _ ih)

theorem SpellsVariable.anchored {decl : VarDecl} {tokens : List Token}
    (h : SpellsVariable decl tokens) : Anchored decl.anchors tokens := by
  cases h with
  | mk _ _ hname hinit =>
      refine .behind _ (.behind _ (.identifier hname.kind ?_))
      cases hinit with
      | none => exact .none []
      | some _ he => exact .skip _ he.anchored

theorem SpellsParam.anchored {param : Param} {tokens : List Token} (h : SpellsParam param tokens) :
    Anchored [param.anchor] tokens := by
  cases h with
  | mk _ hname => exact .behind _ (.identifier hname.kind (.none []))

theorem SpellsSimple.anchored {s : Stmt} {tokens : List Token} (h : SpellsSimple s tokens) :
    Anchored s.anchors tokens := by
  cases h with
  | declare hdecl _ =>
      rw [Stmt.anchors]
      exact hdecl.anchored
  | expression he =>
      rw [Stmt.anchors]
      exact he.anchored

theorem SpellsStart.anchored {init : Option Stmt} {tokens : List Token}
    (h : SpellsStart init tokens) : Anchored (branchAnchors init) tokens := by
  cases h with
  | none =>
      rw [branchAnchors]
      exact .none []
  | some hsimple _ =>
      rw [branchAnchors]
      exact hsimple.anchored

theorem SpellsHeader.anchored {header : ForHeader} {tokens : List Token}
    (h : SpellsHeader header tokens) :
    Anchored (branchAnchors header.init ++
      (optionAnchors header.condition ++ header.update.flatMap Expr.anchors)) tokens := by
  cases h with
  | mk _ hstart _ hcondition _ hupdate _ =>
      have hlist := hupdate.anchored fun _ _ he => he.anchored
      exact .skip _ (hstart.anchored.append (.skip _ (hcondition.anchored.append
        (.skip _ (.before _ hlist)))))

def Phrase.anchors : Phrase → List Anchor
  | .statement s => s.anchors
  | .statements body | .block body => allAnchors body
  | .clauses list => catchesAnchors list
  | .sections body => casesAnchors body.cases ++ partAnchors body.default

/-- A `default` that is not the last label is moved behind the others. -/
theorem anchored_default {word colon : Token} {body : List Stmt} {others : SwitchBody}
    {tokens more : List Token} (hword : word.lexeme = "default") (hcolon : colon.lexeme = ":")
    (hbody : Spells (.statements body) tokens) (hothers : Spells (.sections others) more)
    (ihbody : Anchored (allAnchors body) tokens)
    (ih : Anchored (casesAnchors others.cases ++ partAnchors others.default) more) :
    Anchored (casesAnchors others.cases ++ partAnchors (others.default.or (some body)))
      (word :: colon :: (tokens ++ more)) where
  within := by
    obtain ⟨chosen, hchosen, hholds⟩ := ih.within
    cases hdefault : others.default with
    | none =>
        obtain ⟨further, hfurther, hbodyHolds⟩ := ihbody.within
        rw [hdefault, partAnchors, List.append_nil] at hholds
        rw [Option.none_or, partAnchors]
        refine ⟨chosen ++ further, ?_, List.rel_append hholds hbodyHolds⟩
        refine (List.perm_append_comm.subperm.trans (hfurther.append hchosen)).trans ?_
        exact ((List.sublist_cons_self _ _).trans (List.sublist_cons_self _ _)).subperm
    | some last =>
        rw [hdefault] at hholds
        rw [Option.some_or]
        refine ⟨chosen, hchosen.trans (List.Sublist.subperm ?_), hholds⟩
        exact ((List.sublist_append_right _ _).trans (List.sublist_cons_self _ _)).trans
          (List.sublist_cons_self _ _)
  ordered := by
    intro hlast
    have hnone : labelFollows 0 (colon :: (tokens ++ more)) = false := by
      rw [defaultsLast, Bool.and_eq_true, hword] at hlast
      simpa using hlast.1
    rw [labelFollows_skip _ _ (hcolon ▸ by decide), hbody.passes 0 more] at hnone
    obtain ⟨rfl, closing, hclosing, rfl⟩ := sections_of_labelFollows hothers hnone
    exact (ihbody.before [closing] |>.skip colon |>.skip word).ordered hlast

theorem Spells.anchored {phrase : Phrase} {tokens : List Token} (h : Spells phrase tokens) :
    Anchored phrase.anchors tokens := by
  induction h with
  | simple hsimple _ => exact hsimple.anchored.before _
  | print hkind _ _ hargs _ _ =>
      have hlist := hargs.anchored fun _ _ he => he.anchored
      exact .cons ⟨rfl, hkind, rfl⟩ (.skip _ (hlist.before _))
  | empty _ => exact .none _
  | block _ ih => exact ih
  | ifThen _ he _ ih =>
      rw [Phrase.anchors, Stmt.anchors, branchAnchors, List.append_nil]
      exact .skip _ (he.anchored.append ih)
  | ifElse _ he _ _ _ _ ihthen ihelse =>
      exact .skip _ (he.anchored.append (ihthen.append (.skip _ ihelse)))
  | whileLoop _ he _ ih => exact .skip _ (he.anchored.append ih)
  | doWhile _ _ _ he _ ih => exact .skip _ (ih.append (.skip _ (he.anchored.before _)))
  | forLoop _ hheader _ ih => exact .skip _ (hheader.anchored.append ih)
  | switch _ he _ _ ih => exact .skip _ (he.anchored.append (.skip _ ih))
  | tryCatch _ _ _ _ ihbody ihclauses =>
      rw [Phrase.anchors, Stmt.anchors, partAnchors, List.append_nil]
      exact .skip _ (ihbody.append ihclauses)
  | tryFinally _ _ _ _ _ ihbody ihclauses ihcleanup =>
      exact .skip _ (ihbody.append (ihclauses.append (.skip _ ihcleanup)))
  | returns hword hvalue _ => exact .keyword hword (hvalue.anchored.before _)
  | breaks _ _ => exact .none _
  | continues _ _ => exact .none _
  | nil => exact .none _
  | cons _ _ ihfirst ih => exact ihfirst.append ih
  | braces _ _ _ ih => exact .skip _ (ih.before _)
  | noClause => exact .none _
  | clause _ _ _ hname _ _ _ ihbody ih =>
      exact .skip _ (.skip _ (.behind _ (.identifier hname.kind (.skip _ (ihbody.append ih)))))
  | done _ => exact .none _
  | label _ he _ _ _ ihbody ih =>
      rw [Phrase.anchors, casesAnchors, List.append_assoc, List.append_assoc]
      exact .skip _ (he.anchored.append (.skip _ (ihbody.append ih)))
  | default hword hcolon hbody hothers ihbody ih =>
      exact anchored_default hword hcolon hbody hothers ihbody ih

theorem SpellsMethod.anchored {decl : Method} {tokens : List Token} (h : SpellsMethod decl tokens) :
    Anchored decl.anchors tokens := by
  cases h with
  | mk hname _ hparams _ hbody =>
      have hlist := hparams.anchored fun _ _ hparam => hparam.anchored
      rw [← List.map_eq_flatMap] at hlist
      exact .identifier hname.kind (.skip _ (hlist.append (.skip _ hbody.anchored)))

def ClassPhrase.anchors : ClassPhrase → List Anchor
  | .decl inner => ClassDecl.anchors inner
  | .members _ list => membersAnchors list

theorem SpellsClass.anchored {phrase : ClassPhrase} {tokens : List Token}
    (h : SpellsClass phrase tokens) : Anchored phrase.anchors tokens := by
  induction h with
  | decl hword _ _ _ ih =>
      rw [ClassPhrase.anchors, ClassDecl.anchors]
      exact .keyword hword (.skip _ (.skip _ ih))
  | done _ =>
      rw [ClassPhrase.anchors, membersAnchors]
      exact .none _
  | skip _ _ ih => exact .skip _ ih
  | field hdecl _ _ ih =>
      rw [ClassPhrase.anchors, membersAnchors]
      exact hdecl.anchored.append (.skip _ ih)
  | method _ _ _ hmethod _ ih =>
      rw [ClassPhrase.anchors, membersAnchors]
      exact .behind _ (.behind _ (hmethod.anchored.append ih))
  | constructor _ _ _ hmethod _ ih =>
      rw [ClassPhrase.anchors, membersAnchors]
      exact .behind _ (hmethod.anchored.append ih)
  | nested _ _ _ ihdecl ih =>
      rw [ClassPhrase.anchors, membersAnchors]
      exact .behind _ (ihdecl.append ih)

theorem SpellsItems.anchored {list : List Item} {tokens : List Token} (h : SpellsItems list tokens) :
    Anchored (list.flatMap Item.anchors) tokens := by
  induction h with
  | nil => exact .none _
  | declaration _ hdecl _ ih =>
      rw [List.flatMap_cons]
      exact .behind _ (hdecl.anchored.append ih)
  | statement hs _ ih => exact hs.anchored.append ih

end Grammar

namespace Program

variable {source : String} {program : Program}

theorem anchored_of_source (h : ofSource source = .ok program) :
    Grammar.Anchored program.anchors (tokenize source) :=
  (Grammar.spellsItems_of_ofTokens (Grammar.isTable_tokenize source) h).anchored

theorem tokens_increasing (source : String) :
    (tokenize source).Pairwise (fun token next => token.position < next.position) :=
  (Token.tiling_scan .start source.toList [] Position.behind_nil).pairwise_lt

/-- No two anchors share a position. -/
theorem anchors_nodup (h : ofSource source = .ok program) :
    (program.anchors.map Anchor.position).Nodup := by
  obtain ⟨chosen, ⟨inner, hperm, hinner⟩, hholds⟩ := (anchored_of_source h).within
  have hdistinct : (inner.map Token.position).Nodup := by
    rw [List.Nodup, List.pairwise_map]
    refine ((tokens_increasing source).sublist hinner).imp ?_
    intro token next hlt heq
    exact Position.lt_irrefl _ (heq ▸ hlt)
  rw [Anchor.positions_of_holds hholds]
  exact (hperm.map Token.position).nodup_iff.mp hdistinct

/-- The anchors stand in the text in the order of the fields of the program. -/
theorem anchors_increasing (h : ofSource source = .ok program)
    (hlast : defaultsLast (tokenize source) = true) :
    (program.anchors.map Anchor.position).Pairwise (· < ·) := by
  obtain ⟨chosen, hchosen, hholds⟩ := (anchored_of_source h).ordered hlast
  rw [Anchor.positions_of_holds hholds, List.pairwise_map]
  exact (tokens_increasing source).sublist hchosen

end Program

end MiniJava
