import MiniJava.Proofs.Grammar.Phrase
import MiniJava.Proofs.Syntax.Leaves

/-!
# Labels that follow in a switch

A label belongs to the switch whose braces are the innermost around it. Whether another label of
the same switch follows is found by counting braces; a statement has all of its braces, and none of
its labels belongs to a switch around it.
-/

namespace MiniJava

open Lexeme

/-- Whether another label of the same switch follows; `depth` more braces are open. -/
def labelFollows : Nat → List Token → Bool
  | _, [] => false
  | depth, token :: rest =>
    if token.lexeme = "\x7b" then labelFollows (depth + 1) rest
    else if token.lexeme = "\x7d" then depth ≠ 0 && labelFollows (depth - 1) rest
    else if depth = 0 && (token.lexeme = "case" || token.lexeme = "default") then true
    else labelFollows depth rest

/-- Every `default` is the last label of its switch. -/
def defaultsLast : List Token → Bool
  | [] => true
  | token :: rest =>
    !(token.lexeme = "default" && labelFollows 0 rest) && defaultsLast rest

theorem labelFollows_mono {tokens more : List Token} {depth : Nat}
    (h : labelFollows depth tokens = true) : labelFollows depth (tokens ++ more) = true := by
  induction tokens generalizing depth with
  | nil => cases h
  | cons token tokens ih =>
      rw [labelFollows] at h
      rw [List.cons_append, labelFollows]
      split
      · next hopen =>
          rw [if_pos hopen] at h
          exact ih h
      · next hopen =>
          rw [if_neg hopen] at h
          split
          · next hclose =>
              rw [if_pos hclose, Bool.and_eq_true] at h
              rw [h.1, ih h.2]
              rfl
          · next hclose =>
              rw [if_neg hclose] at h
              split
              · rfl
              · next hlabel =>
                  rw [if_neg hlabel] at h
                  exact ih h

theorem defaultsLast_append {front back : List Token} (h : defaultsLast (front ++ back) = true) :
    defaultsLast front = true ∧ defaultsLast back = true := by
  induction front with
  | nil => exact ⟨rfl, h⟩
  | cons token front ih =>
      rw [List.cons_append, defaultsLast, Bool.and_eq_true] at h
      obtain ⟨hfront, hback⟩ := ih h.2
      refine ⟨?_, hback⟩
      rw [defaultsLast, hfront, Bool.and_true]
      cases hlabel : labelFollows 0 front with
      | false => simp
      | true => simpa [labelFollows_mono hlabel] using h.1

def labelMarks : List String := ["\x7b", "\x7d", "case", "default"]

theorem labelFollows_skip {token : Token} (rest : List Token) (depth : Nat)
    (h : token.lexeme ∉ labelMarks) :
    labelFollows depth (token :: rest) = labelFollows depth rest := by
  simp only [labelMarks, List.mem_cons, List.not_mem_nil, or_false, not_or] at h
  simp [labelFollows, h]

theorem labelFollows_open {token : Token} (rest : List Token) (depth : Nat)
    (h : token.lexeme = "\x7b") :
    labelFollows depth (token :: rest) = labelFollows (depth + 1) rest := by
  rw [labelFollows, if_pos h]

theorem labelFollows_close {token : Token} (rest : List Token) (depth : Nat)
    (h : token.lexeme = "\x7d") :
    labelFollows (depth + 1) (token :: rest) = labelFollows depth rest := by
  rw [labelFollows, if_neg (by simp [h]), if_pos h]
  simp

/-- Inside braces a label is one of another switch. -/
theorem labelFollows_inner {token : Token} (rest : List Token) (depth : Nat)
    (hopen : token.lexeme ≠ "\x7b") (hclose : token.lexeme ≠ "\x7d") :
    labelFollows (depth + 1) (token :: rest) = labelFollows (depth + 1) rest := by
  rw [labelFollows, if_neg hopen, if_neg hclose]
  simp

namespace Grammar

def Passes (tokens : List Token) : Prop :=
  ∀ depth rest, labelFollows depth (tokens ++ rest) = labelFollows depth rest

namespace Passes

theorem nil : Passes [] := fun _ _ => rfl

theorem append {front back : List Token} (hfront : Passes front) (hback : Passes back) :
    Passes (front ++ back) := by
  intro depth rest
  rw [List.append_assoc, hfront, hback]

theorem cons {token : Token} {rest : List Token} (hmark : token.lexeme ∉ labelMarks)
    (h : Passes rest) : Passes (token :: rest) := by
  intro depth more
  rw [List.cons_append, labelFollows_skip _ _ hmark, h]

/-- A token of a fixed text that does not mark a label passes. -/
theorem fixed {token : Token} {rest : List Token} {text : String} (h : token.lexeme = text)
    (hmark : text ∉ labelMarks) (hrest : Passes rest) : Passes (token :: rest) :=
  .cons (h ▸ hmark) hrest

theorem single {token : Token} {text : String} (h : token.lexeme = text)
    (hmark : text ∉ labelMarks) : Passes [token] := .fixed h hmark .nil

theorem all {tokens : List Token} (h : ∀ token ∈ tokens, token.lexeme ∉ labelMarks) :
    Passes tokens := by
  induction tokens with
  | nil => exact .nil
  | cons token tokens ih =>
      obtain ⟨hfirst, hrest⟩ := List.forall_mem_cons.mp h
      exact .cons hfirst (ih hrest)

end Passes

/-- Only punctuation and reserved words have to do with labels. -/
theorem not_mem_labelMarks {token : Token} (h : token.IsRegular) (hmark : token.kind ≠ .delimiter)
    (hword : token.kind ≠ .reservedWord) : token.lexeme ∉ labelMarks := by
  have hmarks : ∀ text ∈ labelMarks, (text, TokenKind.delimiter) ∈ symbols ∨
      (text, TokenKind.reservedWord) ∈ keywords := by decide
  intro hmem
  rcases hmarks _ hmem with hsymbol | hkeyword
  · exact hmark (h.lexical.kind_of_symbol hsymbol)
  · exact hword (h.kind_of_keyword hkeyword)

theorem leaf_not_mem_labelMarks {token : Token} (h : token.IsRegular)
    (hleaf : token.kind.isLeaf = true) : token.lexeme ∉ labelMarks := by
  apply not_mem_labelMarks h
  · intro hkind
    rw [hkind] at hleaf
    cases hleaf
  · intro hkind
    rw [hkind] at hleaf
    cases hleaf

theorem Atom.isLeaf {token : Token} {e : Expr} (h : Atom token e) : token.kind.isLeaf = true := by
  cases h <;> simp_all [TokenKind.isLeaf]

theorem Derives.not_mem_labelMarks {level : Level} {tokens : List Token} {e : Expr}
    (h : Derives level tokens e) (hregular : ∀ token ∈ tokens, token.IsRegular) :
    ∀ token ∈ tokens, token.lexeme ∉ labelMarks := by
  have hbinary : ∀ op : BinaryOp, op.symbol ∉ labelMarks := fun op => by cases op <;> decide
  have hunary : ∀ op : UnaryOp, op.symbol ∉ labelMarks := fun op => by cases op <;> decide
  have hstep : ∀ op : StepOp, op.symbol ∉ labelMarks := fun op => by cases op <;> decide
  have hname : ∀ {token : Token}, token.IsRegular → token.kind = .identifier →
      token.lexeme ∉ labelMarks := fun htoken hkind => leaf_not_mem_labelMarks htoken (hkind ▸ rfl)
  induction h with
  | @assign target sign op tokens value hkind hop _ ih =>
      simp only [List.forall_mem_cons] at hregular ⊢
      refine ⟨hname hregular.1 hkind, ?_, ih hregular.2.2⟩
      cases hop with
      | plain hsign =>
          exact Grammar.not_mem_labelMarks hregular.2.1 (by simp [hsign]) (by simp [hsign])
      | compound hsign =>
          exact Grammar.not_mem_labelMarks hregular.2.1 (by simp [hsign]) (by simp [hsign])
  | loosest _ ih => exact ih hregular
  | @binary sign op left right lhs rhs hsign _ _ ihl ihr =>
      simp only [List.forall_mem_append, List.forall_mem_cons] at hregular ⊢
      exact ⟨ihl hregular.1, hsign ▸ hbinary op, ihr hregular.2.2⟩
  | tighter _ ih => exact ih hregular
  | tightest _ ih => exact ih hregular
  | @sign sign op tokens e hsign _ ih =>
      simp only [List.forall_mem_cons] at hregular ⊢
      exact ⟨hsign ▸ hunary op, ih hregular.2⟩
  | @stepBefore sign target op hsign hkind =>
      simp only [List.forall_mem_cons] at hregular ⊢
      exact ⟨hsign ▸ hstep op, hname hregular.2.1 hkind, by simp⟩
  | @stepBehind sign op tokens target position _ hsign ih =>
      simp only [List.forall_mem_append, List.forall_mem_singleton] at hregular ⊢
      exact ⟨ih hregular.1, hsign ▸ hstep op⟩
  | operand _ ih => exact ih hregular
  | @atom token _ hatom =>
      simp only [List.forall_mem_singleton] at hregular ⊢
      exact leaf_not_mem_labelMarks hregular hatom.isLeaf
  | @group opening closing tokens e hopening _ hclosing ih =>
      simp only [List.forall_mem_cons, List.forall_mem_append] at hregular ⊢
      exact ⟨hopening ▸ by decide, ih hregular.2.1, hclosing ▸ by decide, by simp⟩

theorem SpellsExpr.passes {e : Expr} {tokens : List Token} (h : SpellsExpr e tokens) :
    Passes tokens := .all (h.derives.not_mem_labelMarks h.regular)

theorem SpellsOption.passes {value : Option Expr} {tokens : List Token}
    (h : SpellsOption value tokens) : Passes tokens := by
  cases h with
  | none => exact .nil
  | some he => exact he.passes

theorem SpellsGroup.passes {e : Expr} {tokens : List Token} (h : SpellsGroup e tokens) :
    Passes tokens := by
  cases h with
  | mk hopening he hclosing =>
      exact .fixed hopening (by decide) (he.passes.append (.single hclosing (by decide)))

theorem Listed.passes {list : List Expr} {tokens : List Token}
    (h : Listed SpellsExpr list tokens) : Passes tokens := by
  cases h with
  | none => exact .nil
  | some hlist =>
      induction hlist with
      | one he => exact he.passes
      | more he hcomma _ ih => exact he.passes.append (.fixed hcomma (by decide) ih)

theorem SpellsModifiers.passes {modifiers : List Modifier} {tokens : List Token}
    (h : SpellsModifiers modifiers tokens) : Passes tokens := by
  have hword : ∀ modifier : Modifier, modifier.word ∉ labelMarks := fun modifier => by
    cases modifier <;> decide
  induction h with
  | nil => exact .nil
  | cons hlexeme _ ih => exact .fixed hlexeme (hword _) ih

theorem SpellsDimensions.passes {n : Nat} {tokens : List Token} (h : SpellsDimensions n tokens) :
    Passes tokens := by
  induction h with
  | none => exact .nil
  | more hleft hright _ ih => exact .fixed hleft (by decide) (.fixed hright (by decide) ih)

theorem SpellsType.passes {type : TypeName} {tokens : List Token} (h : SpellsType type tokens) :
    Passes tokens := by
  cases h with
  | mk hhead hregular hdims =>
      refine .cons ?_ hdims.passes
      simp only [namesType, Bool.or_eq_true, decide_eq_true_eq] at hhead
      rcases hhead with (hkind | hkind) | hvoid
      · exact not_mem_labelMarks hregular (by simp [hkind]) (by simp [hkind])
      · exact leaf_not_mem_labelMarks hregular (hkind ▸ rfl)
      · exact hvoid ▸ by decide

theorem IsName.not_mem_labelMarks {name : Token} (h : IsName name) :
    name.lexeme ∉ labelMarks := leaf_not_mem_labelMarks h.regular (h.kind ▸ rfl)

theorem SpellsSimple.passes {s : Stmt} {tokens : List Token} (h : SpellsSimple s tokens) :
    Passes tokens := by
  cases h with
  | expression he => exact he.passes
  | declare hdecl _ =>
      cases hdecl with
      | mk hmods htype hname hinit =>
          refine hmods.passes.append (htype.passes.append (.cons hname.not_mem_labelMarks ?_))
          cases hinit with
          | none => exact .nil
          | some hsign he => exact .fixed hsign (by decide) he.passes

theorem SpellsStart.passes {init : Option Stmt} {tokens : List Token}
    (h : SpellsStart init tokens) : Passes tokens := by
  cases h with
  | none => exact .nil
  | some hsimple _ => exact hsimple.passes

theorem SpellsHeader.passes {header : ForHeader} {tokens : List Token}
    (h : SpellsHeader header tokens) : Passes tokens := by
  cases h with
  | mk hopening hstart hfirst hcondition hsecond hupdate hclosing =>
      refine .fixed hopening (by decide) (hstart.passes.append (.fixed hfirst (by decide) ?_))
      refine hcondition.passes.append (.fixed hsecond (by decide) ?_)
      exact hupdate.passes.append (.single hclosing (by decide))

/-- The sections of a switch close its brace. -/
def Closes (tokens : List Token) : Prop :=
  ∀ depth rest, labelFollows (depth + 1) (tokens ++ rest) = labelFollows depth rest

theorem Closes.single {closing : Token} (h : closing.lexeme = "\x7d") : Closes [closing] :=
  fun depth rest => labelFollows_close rest depth h

theorem Passes.closes {front back : List Token} (hfront : Passes front) (hback : Closes back) :
    Closes (front ++ back) := by
  intro depth rest
  rw [List.append_assoc, hfront, hback]

/-- A label inside the braces of a switch is none of another switch. -/
theorem Closes.label {word : Token} {tokens : List Token}
    (hword : word.lexeme = "case" ∨ word.lexeme = "default") (h : Closes tokens) :
    Closes (word :: tokens) := by
  have hmark : word.lexeme ≠ "\x7b" ∧ word.lexeme ≠ "\x7d" := by
    rcases hword with hword | hword <;> simp [hword]
  intro depth rest
  rw [List.cons_append, labelFollows_inner _ _ hmark.1 hmark.2, h]

theorem Closes.passes {opening : Token} {tokens : List Token} (hopening : opening.lexeme = "\x7b")
    (h : Closes tokens) : Passes (opening :: tokens) := by
  intro depth rest
  rw [List.cons_append, labelFollows_open _ _ hopening, h]

def Phrase.Passes : Phrase → List Token → Prop
  | .sections _, tokens => Closes tokens
  | _, tokens => Grammar.Passes tokens

theorem Spells.passes {phrase : Phrase} {tokens : List Token} (h : Spells phrase tokens) :
    phrase.Passes tokens := by
  induction h with
  | simple hsimple hsemicolon =>
      exact hsimple.passes.append (.single hsemicolon (by decide))
  | print hkind hregular hopening hargs hclosing hsemicolon =>
      have hcall := not_mem_labelMarks hregular (by simp [hkind]) (by simp [hkind])
      refine .cons hcall (.fixed hopening (by decide) (hargs.passes.append ?_))
      exact .fixed hclosing (by decide) (.single hsemicolon (by decide))
  | empty hsemicolon => exact .single hsemicolon (by decide)
  | block _ ih => exact ih
  | ifThen hword he _ ih => exact .fixed hword (by decide) (he.passes.append ih)
  | ifElse hword he _ _ hother _ ihthen ihelse =>
      exact .fixed hword (by decide) (he.passes.append (ihthen.append (.fixed hother (by decide)
        ihelse)))
  | whileLoop hword he _ ih => exact .fixed hword (by decide) (he.passes.append ih)
  | doWhile hword _ hagain he hsemicolon ih =>
      exact .fixed hword (by decide) (ih.append (.fixed hagain (by decide) (he.passes.append
        (.single hsemicolon (by decide)))))
  | forLoop hword hheader _ ih => exact .fixed hword (by decide) (hheader.passes.append ih)
  | switch hword he hopening _ ih =>
      exact .fixed hword (by decide) (he.passes.append (Closes.passes hopening ih))
  | tryCatch hword _ _ _ ihbody ihclauses =>
      exact .fixed hword (by decide) (ihbody.append ihclauses)
  | tryFinally hword _ _ hlast _ ihbody ihclauses ihcleanup =>
      exact .fixed hword (by decide) (ihbody.append (ihclauses.append (.fixed hlast (by decide)
        ihcleanup)))
  | returns hword hvalue hsemicolon =>
      exact .fixed hword (by decide) (hvalue.passes.append (.single hsemicolon (by decide)))
  | breaks hword hsemicolon => exact .fixed hword (by decide) (.single hsemicolon (by decide))
  | continues hword hsemicolon => exact .fixed hword (by decide) (.single hsemicolon (by decide))
  | nil => exact .nil
  | cons _ _ ihfirst ih => exact ihfirst.append ih
  | braces hopening _ hclosing ih =>
      exact Closes.passes hopening (Passes.closes ih (.single hclosing))
  | noClause => exact .nil
  | clause hword hopening htype hname hclosing _ _ ihbody ih =>
      refine .fixed hword (by decide) (.fixed hopening (by decide) (htype.passes.append ?_))
      exact .cons hname.not_mem_labelMarks (.fixed hclosing (by decide) (ihbody.append ih))
  | done hclosing => exact .single hclosing
  | label hword he hcolon _ _ ihbody ih =>
      refine Closes.label (.inl hword) (he.passes.closes ?_)
      exact Passes.closes (.single hcolon (by decide)) (Passes.closes ihbody ih)
  | default hword hcolon _ _ ihbody ih =>
      refine Closes.label (.inr hword) ?_
      exact Passes.closes (.single hcolon (by decide)) (Passes.closes ihbody ih)

end Grammar

end MiniJava
