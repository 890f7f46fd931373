import MiniJava.Proofs.Position
import MiniJava.Proofs.Token.Spelling

/-!
# Token tables tile their source

Reading a text never stops before its end: its lexemes put together are the text. The tokens of its
table stand in it in order, each at the position counted from the text before it, and between them
are only comments, blanks and newlines.
-/

namespace MiniJava.Token

open Lexeme

inductive Gap : List Char → List Char → Prop
  | nil {rest : List Char} : Gap [] rest
  | cons {kind : TokenKind} {lexeme gap rest : List Char} : kind.isSkipped = true →
      Spelled kind lexeme (gap ++ rest) → Gap gap rest → Gap (lexeme ++ gap) rest

/-- `Tiling before tokens text` says that behind `before` the tokens stand in `text` one after
another, each where it says, with gaps around them. -/
inductive Tiling : List Char → List Token → List Char → Prop
  | done {before gap : List Char} : Gap gap [] → Tiling before [] gap
  | token {before gap rest : List Char} {token : Token} {tokens : List Token} :
      Gap gap (token.lexeme.toList ++ rest) → token.kind.isSkipped = false →
      Spelled token.kind token.lexeme.toList rest → token.lexeme.toList ≠ [] →
      token.position = .behind (before ++ gap) →
      Tiling (before ++ gap ++ token.lexeme.toList) tokens rest →
      Tiling before (token :: tokens) (gap ++ token.lexeme.toList ++ rest)

theorem Tiling.skip {before lexeme rest : List Char} {kind : TokenKind} {tokens : List Token}
    (hkind : kind.isSkipped = true) (hlexeme : Spelled kind lexeme rest)
    (h : Tiling (before ++ lexeme) tokens rest) : Tiling before tokens (lexeme ++ rest) := by
  cases h with
  | done hgap => exact .done (.cons hkind (by rwa [List.append_nil]) hgap)
  | @token _ gap rest token tokens hgap hkept hspelled hne hposition htail =>
      rw [List.append_assoc] at hlexeme hposition
      rw [← List.append_assoc, ← List.append_assoc]
      refine .token (.cons hkind hlexeme hgap) hkept hspelled hne hposition ?_
      rwa [← List.append_assoc before]

theorem Tiling.cons {before lexeme rest : List Char} {kind : TokenKind} {tokens : List Token}
    (hkind : kind.isSkipped = false) (hlexeme : Spelled kind lexeme rest) (hne : lexeme ≠ [])
    (h : Tiling (before ++ lexeme) tokens rest) :
    Tiling before (⟨kind, String.ofList lexeme, .behind before⟩ :: tokens) (lexeme ++ rest) := by
  have htext : (String.ofList lexeme).toList = lexeme := String.toList_ofList
  have hfirst := @Tiling.token before [] rest ⟨kind, String.ofList lexeme, .behind before⟩ tokens
  simp only [htext, List.nil_append, List.append_nil] at hfirst
  exact hfirst .nil hkind hlexeme hne trivial h

/-- Where a token of a tiling stands. -/
theorem Tiling.exists_split {before text : List Char} {tokens : List Token}
    (h : Tiling before tokens text) {token : Token} (hmem : token ∈ tokens) :
    ∃ front rest, text = front ++ token.lexeme.toList ++ rest ∧
      token.position = .behind (before ++ front) := by
  induction h with
  | done => simp at hmem
  | @token before gap rest first tokens _ _ _ _ hposition _ ih =>
      rcases List.mem_cons.mp hmem with rfl | hlater
      · exact ⟨gap, rest, rfl, hposition⟩
      · obtain ⟨front, behind, rfl, hplace⟩ := ih hlater
        refine ⟨gap ++ first.lexeme.toList ++ front, behind, ?_, ?_⟩
        · simp only [List.append_assoc]
        · rw [hplace]
          simp only [List.append_assoc]

theorem Tiling.pairwise_lt {before text : List Char} {tokens : List Token}
    (h : Tiling before tokens text) : tokens.Pairwise fun a b => a.position < b.position := by
  induction h with
  | done => exact List.Pairwise.nil
  | @token before gap rest first tokens _ _ _ hne hposition htail ih =>
      refine List.pairwise_cons.mpr ⟨?_, ih⟩
      intro later hlater
      obtain ⟨front, _, -, hplace⟩ := htail.exists_split hlater
      have hsplit : before ++ gap ++ first.lexeme.toList ++ front =
          before ++ gap ++ (first.lexeme.toList ++ front) := List.append_assoc _ _ _
      rw [hposition, hplace, hsplit, Position.behind_append (before ++ gap)]
      exact Position.lt_advance _ (by simp [hne])

/-- Reading goes on behind what is read at the front of a text, up to its end. -/
theorem scan_read_induction {motive : Position → List Char → Prop} (nil : ∀ p, motive p [])
    (cons : ∀ p c rest kind n, read? c rest = some (kind, n) →
      motive (p.advance (c :: rest.take n)) (rest.drop n) → motive p (c :: rest))
    (p : Position) (text : List Char) : motive p text := by
  induction hlength : text.length using Nat.strong_induction_on generalizing p text with
  | _ length ih =>
      cases text with
      | nil => exact nil p
      | cons c rest =>
          obtain ⟨kind, n, hread⟩ := exists_read? c rest
          refine cons p c rest kind n hread (ih (rest.drop n).length ?_ _ _ rfl)
          rw [← hlength, List.length_drop, List.length_cons]
          omega

/-- Reading is an induction on the lexemes of a text. -/
theorem scan_induction {motive : Position → List Char → List Token → Prop}
    (nil : ∀ p, motive p [] [])
    (cons : ∀ p kind lexeme tail tokens, lexeme ≠ [] → Spelled kind lexeme tail →
      motive (p.advance lexeme) tail tokens →
      motive p (lexeme ++ tail) (⟨kind, String.ofList lexeme, p⟩ :: tokens))
    (p : Position) (text : List Char) : motive p text (scan p text) := by
  induction p, text using scan_read_induction with
  | nil p =>
      rw [scan_nil]
      exact nil p
  | cons p c rest kind n hread ih =>
      have hsplit : c :: rest = c :: rest.take n ++ rest.drop n := by
        rw [List.cons_append, List.take_append_drop]
      rw [scan_cons p hread, hsplit]
      exact cons p kind _ _ _ (List.cons_ne_nil _ _) (spelled_of_read? hread) ih

theorem flatMap_lexeme_scan (p : Position) (text : List Char) :
    (scan p text).flatMap (fun token => token.lexeme.toList) = text := by
  induction p, text using scan_induction with
  | nil p => rfl
  | cons p kind lexeme tail tokens _ _ ih =>
      rw [List.flatMap_cons, ih, String.toList_ofList]

theorem lexeme_ne_nil_of_mem_scan (p : Position) (text : List Char) :
    ∀ token ∈ scan p text, token.lexeme.toList ≠ [] := by
  induction p, text using scan_induction with
  | nil p => simp
  | cons p kind lexeme tail tokens hne _ ih =>
      refine List.forall_mem_cons.mpr ⟨?_, ih⟩
      rwa [String.toList_ofList]

theorem tiling_scan (p : Position) (text before : List Char) (hp : .behind before = p) :
    Tiling before ((scan p text).filter fun token => !token.kind.isSkipped) text := by
  induction p, text using scan_induction generalizing before with
  | nil p => exact Tiling.done .nil
  | cons p kind lexeme tail tokens hne hspelled ih =>
      subst hp
      have htail := ih (before ++ lexeme) (Position.behind_append before lexeme)
      cases hkind : kind.isSkipped with
      | true =>
          rw [List.filter_cons_of_neg (by simp [hkind])]
          exact htail.skip hkind hspelled
      | false =>
          rw [List.filter_cons_of_pos (by simp [hkind])]
          exact htail.cons hkind hspelled hne

/-- A token table accounts for every character of its source: reading goes on to the end, tokens
stand at the positions counted from the source with gaps between them, the source has each lexeme
where its token says, and positions increase. -/
theorem tokenize_tiles_source (source : String) :
    (scan .start source.toList).flatMap (fun token => token.lexeme.toList) = source.toList ∧
      (∀ token ∈ scan .start source.toList, token.lexeme.toList ≠ []) ∧
      Tiling [] (tokenize source) source.toList ∧
      (∀ token ∈ tokenize source,
        token.lexeme.toList <+: token.position.textAt source.toList) ∧
      (tokenize source).Pairwise fun a b => a.position < b.position := by
  have htiling : Tiling [] (tokenize source) source.toList :=
    tiling_scan .start source.toList [] Position.behind_nil
  refine ⟨flatMap_lexeme_scan _ _, lexeme_ne_nil_of_mem_scan _ _, htiling, ?_,
    htiling.pairwise_lt⟩
  intro token hmem
  obtain ⟨front, rest, hsource, hposition⟩ := htiling.exists_split hmem
  rw [hsource, hposition, List.nil_append, List.append_assoc, Position.textAt_behind]
  exact List.prefix_append _ _

end MiniJava.Token
