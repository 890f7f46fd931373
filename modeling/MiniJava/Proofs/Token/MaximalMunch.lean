import MiniJava.Proofs.Token.Kinds

/-!
# Lexemes are as long as they can be

The rules are tried in their order and the first that applies wins; a number gives up its exponent
or its fraction where it would not end at a word boundary with it. All the same a lexeme is the
longest one of its class that begins at its position: no longer operator does, words and numbers go
on up to a boundary, and a string or a block comment ends where it can end first.
-/

namespace MiniJava

open Lexeme Text

namespace Lexeme

/-- `Candidate kind lexeme rest` says that `lexeme` is of the class of `kind` and may end in front
of `rest`. All operators are of one class. -/
def Candidate (kind : TokenKind) (lexeme rest : List Char) : Prop :=
  match kind with
  | .comment =>
    (∃ body, lexeme = '/' :: '/' :: body ∧ '\n' ∉ body) ∨
      ∃ body, lexeme = '/' :: '*' :: (body ++ ['*', '/']) ∧ ¬ ['*', '/'] <:+: body
  | .newline => lexeme = ['\n']
  | .whitespace => lexeme ≠ [] ∧ ∀ c ∈ lexeme, isBlank c = true
  | .stringLiteral => ∃ body, lexeme = '"' :: (body ++ ['"']) ∧ Quotable '"' body
  | .charLiteral =>
    ∃ body, lexeme = '\'' :: (body ++ ['\'']) ∧ Quotable '\'' body ∧
      (body.length = 1 ∨ body.length = 2 ∧ body.head? = some '\\')
  | .printCall =>
    (∃ method ∈ printMethods, lexeme = printPath ++ method.toList) ∧ endsWord rest = true
  | .number =>
    (∃ digits fraction exponent, lexeme = digits ++ fraction ++ exponent ∧ digits ≠ [] ∧
      (∀ d ∈ digits, isDecimalDigit d = true) ∧ Fraction fraction ∧ Exponent exponent) ∧
      endsWord rest = true
  | .identifier =>
    ∃ c body, lexeme = c :: body ∧ isIdentifierStart c = true ∧
      ∀ b ∈ body, isIdentifierPart b = true
  | .arithmeticOperator | .assignmentOperator | .compoundOperator | .logicalOperator
  | .relationalOperator | .incrementOperator | .bitwiseOperator =>
    ∃ entry ∈ symbols, entry.2.isOperator = true ∧ lexeme = entry.1.toList
  | .delimiter | .openBracket | .closeBracket =>
    ∃ text, (text, kind) ∈ symbols ∧ lexeme = text.toList
  | .dataType | .conditional | .loop | .exception | .accessModifier | .dataStructure
  | .reservedWord | .booleanLiteral | .nullLiteral =>
    (∃ text, (text, kind) ∈ keywords ∧ lexeme = text.toList) ∧ endsWord rest = true
  | .error => ∃ c, lexeme = [c] ∧ c ≠ '\n'

structure Longest (kind : TokenKind) (text lexeme rest : List Char) : Prop where
  split : text = lexeme ++ rest
  candidate : Candidate kind lexeme rest
  longest : ∀ other tail, text = other ++ tail → Candidate kind other tail →
    other.length ≤ lexeme.length

theorem candidate_keyword {kind : TokenKind} (h : kind ∈ keywords.map Prod.snd)
    {lexeme rest : List Char} : Candidate kind lexeme rest ↔
      (∃ text, (text, kind) ∈ keywords ∧ lexeme = text.toList) ∧ endsWord rest = true := by
  cases kind <;> first | exact Iff.rfl | exact absurd h (by decide)

theorem candidate_operator {kind : TokenKind} (h : kind.isOperator = true)
    {lexeme rest : List Char} : Candidate kind lexeme rest ↔
      ∃ entry ∈ symbols, entry.2.isOperator = true ∧ lexeme = entry.1.toList := by
  cases kind <;> first | exact Iff.rfl | exact absurd h (by decide)

theorem candidate_punctuation {kind : TokenKind} (h : kind ∈ symbols.map Prod.snd)
    (hkind : kind.isOperator = false) {lexeme rest : List Char} :
    Candidate kind lexeme rest ↔ ∃ text, (text, kind) ∈ symbols ∧ lexeme = text.toList := by
  cases kind <;> first
    | exact Iff.rfl
    | exact absurd h (by decide)
    | exact absurd hkind (by decide)

section Prefixes

variable {body rest other tail : List Char}

/-- A run of characters goes on as long as any other text of such characters. -/
theorem length_le_of_run {p : Char → Bool} (h : body ++ rest = other ++ tail)
    (hother : ∀ c ∈ other, p c = true) (hrest : ∀ c ∈ rest.head?, p c = false) :
    other.length ≤ body.length := by
  rcases List.append_eq_append_iff.mp h with ⟨more, rfl, hmore⟩ | ⟨more, rfl, -⟩
  · cases more with
    | nil => simp
    | cons c more =>
        have hc := hother c (by simp)
        rw [hrest c (by rw [hmore]; rfl)] at hc
        cases hc
  · simp

/-- Nothing that is free of `*/` goes on behind the first `*/`. -/
theorem length_le_of_close (h : body ++ '*' :: '/' :: rest = other ++ '*' :: '/' :: tail)
    (hother : ¬ ['*', '/'] <:+: other) : other.length ≤ body.length := by
  rcases List.append_eq_append_iff.mp h with ⟨more, rfl, hmore⟩ | ⟨more, rfl, -⟩
  · match more, hmore with
    | [], _ => simp
    | [c], hmore => simp at hmore
    | c :: d :: more, hmore =>
        simp only [List.cons_append, List.cons.injEq] at hmore
        obtain ⟨rfl, rfl, -⟩ := hmore
        exact absurd ⟨body, more, by simp⟩ hother
  · simp

/-- A quoted text ends at one place only. -/
theorem Quotable.unique {quote : Char} (hquote : quote ≠ '\\') (hbody : Quotable quote body)
    (hother : Quotable quote other) (h : body ++ quote :: rest = other ++ quote :: tail) :
    body = other := by
  induction hbody generalizing other with
  | nil =>
      cases hother with
      | nil => rfl
      | plain hne _ _ _ => exact absurd (List.cons.inj h).1.symm hne
      | escape _ _ => exact absurd (List.cons.inj h).1 hquote
  | plain hne hslash _ _ ih =>
      cases hother with
      | nil => exact absurd (List.cons.inj h).1 hne
      | plain _ _ _ hmore =>
          obtain ⟨rfl, hrest⟩ := List.cons.inj h
          rw [ih hmore hrest]
      | escape _ _ => exact absurd (List.cons.inj h).1 hslash
  | escape _ _ ih =>
      cases hother with
      | nil => exact absurd (List.cons.inj h).1.symm hquote
      | plain _ hslash _ _ => exact absurd (List.cons.inj h).1.symm hslash
      | escape _ hmore =>
          obtain ⟨rfl, hrest⟩ := List.cons.inj (List.cons.inj h).2
          rw [ih hmore hrest]

end Prefixes

section Rules

variable {c : Char} {body tail rest : List Char} {kind : TokenKind} {n : Nat}

structure ReadsLongest (kind : TokenKind) (c : Char) (rest : List Char) (n : Nat) : Prop where
  within : n ≤ rest.length
  longest : Longest kind (c :: rest) (c :: rest.take n) (rest.drop n)

theorem Longest.of_append (h : Longest kind (c :: body ++ tail) (c :: body) tail)
    (hn : n = body.length) : ReadsLongest kind c (body ++ tail) n := by
  refine ⟨by simp [hn], ?_⟩
  rw [hn, List.take_left, List.drop_left]
  exact h

theorem longest_lineComment (hbody : '\n' ∉ body) (htail : ∀ b ∈ tail.head?, b = '\n') :
    Longest .comment ('/' :: '/' :: body ++ tail) ('/' :: '/' :: body) tail := by
  refine ⟨rfl, .inl ⟨body, rfl, hbody⟩, ?_⟩
  rintro _ behind htext (⟨other, rfl, hother⟩ | ⟨other, rfl, -⟩)
  · have hrun : body ++ tail = other ++ behind := by simpa using htext
    have hline : ∀ b ∈ other, (b != '\n') = true := by
      intro b hb
      rw [bne_iff_ne]
      rintro rfl
      exact hother hb
    have hle := length_le_of_run hrun hline fun b hb => by simp [htail b hb]
    simpa using hle
  · simp at htext

theorem longest_blockComment (hbody : ¬ ['*', '/'] <:+: body) :
    Longest .comment ('/' :: '*' :: (body ++ ['*', '/']) ++ tail)
      ('/' :: '*' :: (body ++ ['*', '/'])) tail := by
  refine ⟨rfl, .inr ⟨body, rfl, hbody⟩, ?_⟩
  rintro _ behind htext (⟨other, rfl, -⟩ | ⟨other, rfl, hother⟩)
  · simp at htext
  · have hclose : body ++ '*' :: '/' :: tail = other ++ '*' :: '/' :: behind := by
      simpa using htext
    simpa using length_le_of_close hclose hother

theorem longest_of_comment (h : comment c rest = some (kind, n)) :
    ReadsLongest kind c rest n := by
  unfold comment at h
  split at h
  · next text =>
      obtain ⟨body, tail, rfl, hrun, hbody, htail⟩ := exists_run (· != '\n') text
      simp only [hrun, Option.some.injEq, Prod.mk.injEq] at h
      obtain ⟨rfl, rfl⟩ := h
      have hnot : '\n' ∉ body := fun hmem => by simpa using hbody _ hmem
      have hline := longest_lineComment hnot fun b hb => by simpa using htail b hb
      exact hline.of_append (Nat.add_comm _ _)
  · next text =>
      obtain ⟨m, hm, hkind⟩ := Option.map_eq_some_iff.mp h
      obtain ⟨rfl, rfl⟩ := Prod.mk.inj hkind
      obtain ⟨body, tail, rfl, rfl, hbody⟩ := blockEnd_eq_some hm
      have hsplit : '*' :: (body ++ '*' :: '/' :: tail) = '*' :: (body ++ ['*', '/']) ++ tail := by
        simp
      rw [hsplit]
      exact (longest_blockComment hbody).of_append (by simp; omega)
  · simp at h

theorem longest_of_newline (h : newline c rest = some (kind, n)) :
    ReadsLongest kind c rest n := by
  unfold newline at h
  split at h
  · next hc =>
      cases h
      refine ⟨Nat.zero_le _, rfl, by rw [hc]; rfl, fun other tail _ hother => ?_⟩
      rw [show other = ['\n'] from hother]
      exact Nat.le_refl 1
  · simp at h

theorem longest_of_blanks (h : blanks c rest = some (kind, n)) :
    ReadsLongest kind c rest n := by
  unfold blanks at h
  split at h
  · next hc =>
      obtain ⟨body, tail, rfl, hrun, hbody, htail⟩ := exists_run isBlank rest
      simp only [hrun, Option.some.injEq, Prod.mk.injEq] at h
      obtain ⟨rfl, rfl⟩ := h
      refine Longest.of_append ⟨rfl, ?_, fun other behind htext hother => ?_⟩ rfl
      · exact ⟨List.cons_ne_nil _ _, List.forall_mem_cons.mpr ⟨hc, hbody⟩⟩
      · exact length_le_of_run htext hother.2 htail
  · simp at h

theorem longest_of_stringLiteral (h : stringLiteral c rest = some (kind, n)) :
    ReadsLongest kind c rest n := by
  unfold stringLiteral at h
  split at h
  · next hc =>
      obtain ⟨m, hm, hkind⟩ := Option.map_eq_some_iff.mp h
      obtain ⟨rfl, rfl⟩ := Prod.mk.inj hkind
      obtain ⟨body, tail, rfl, rfl, hbody⟩ := stringEnd_eq_some hm
      rw [hc, List.append_cons]
      refine Longest.of_append ⟨rfl, ⟨body, rfl, hbody⟩, ?_⟩ (by simp)
      rintro _ behind htext ⟨other, rfl, hother⟩
      rw [hbody.unique (by decide) hother (by simpa using htext)]
  · simp at h

theorem charEnd_length {text : List Char} (h : charEnd text = some n) :
    n = 2 ∨ n = 3 ∧ text.head? = some '\\' := by
  unfold charEnd at h
  split at h
  · split at h
    · simp at h
    · exact .inr ⟨(Option.some.inj h).symm, rfl⟩
  · split at h
    · simp at h
    · exact .inl (Option.some.inj h).symm
  · simp at h

theorem longest_of_charLiteral (h : charLiteral c rest = some (kind, n)) :
    ReadsLongest kind c rest n := by
  unfold charLiteral at h
  split at h
  · next hc =>
      obtain ⟨m, hm, hkind⟩ := Option.map_eq_some_iff.mp h
      obtain ⟨rfl, rfl⟩ := Prod.mk.inj hkind
      obtain ⟨body, tail, rfl, rfl, hbody⟩ := charEnd_eq_some hm
      have hlength : body.length = 1 ∨ body.length = 2 ∧ body.head? = some '\\' := by
        rcases charEnd_length hm with hone | ⟨htwo, hhead⟩
        · exact .inl (by omega)
        · cases body with
          | nil => simp at htwo
          | cons b body => exact .inr ⟨by omega, hhead⟩
      rw [hc, List.append_cons]
      refine Longest.of_append ⟨rfl, ⟨body, rfl, hbody, hlength⟩, ?_⟩ (by simp)
      rintro _ behind htext ⟨other, rfl, hother, -⟩
      rw [hbody.unique (by decide) hother (by simpa using htext)]
  · simp at h

theorem longest_of_printCall (h : printCall c rest = some (kind, n)) :
    ReadsLongest kind c rest n := by
  unfold printCall at h
  split at h
  · next hpath =>
      obtain ⟨behind, hbehind⟩ := List.isPrefixOf_iff_prefix.mp hpath
      obtain ⟨run, tail, rfl, hrun, -, htail⟩ := exists_run isIdentifierPart behind
      simp only [← hbehind, List.drop_left, hrun] at h
      split at h
      · next hmethod =>
          simp only [Bool.and_eq_true, List.contains_iff_mem] at hmethod
          simp only [Option.some.injEq, Prod.mk.injEq] at h
          obtain ⟨rfl, rfl⟩ := h
          have hcall : Longest .printCall (printPath ++ run ++ tail) (printPath ++ run) tail := by
            refine ⟨rfl, ⟨⟨_, hmethod.1, by rw [String.toList_ofList]⟩, hmethod.2⟩, ?_⟩
            rintro _ more htext ⟨⟨method, hmem, rfl⟩, -⟩
            rw [List.append_assoc, List.append_assoc] at htext
            have hall := List.all_eq_true.mp (printMethods_words _ hmem)
            have hle := length_le_of_run (List.append_cancel_left htext) hall htail
            rw [List.length_append, List.length_append]
            exact Nat.add_le_add_left hle _
          obtain ⟨d, path, hd⟩ := List.exists_cons_of_ne_nil (show printPath ≠ [] by decide)
          rw [hd, List.cons_append, List.cons.injEq] at hbehind
          obtain ⟨rfl, rfl⟩ := hbehind
          rw [hd, List.cons_append] at hcall
          rw [← List.append_assoc]
          exact hcall.of_append (by simp [hd])
      · simp at h
  · simp at h

theorem keywords_words : ∀ entry ∈ keywords, entry.1.toList.all isIdentifierPart = true := by
  decide

theorem longest_of_word (h : word c rest = some (kind, n)) :
    ReadsLongest kind c rest n := by
  unfold word at h
  split at h
  · next hc =>
      obtain ⟨body, tail, rfl, hrun, hbody, htail⟩ := exists_run isIdentifierPart rest
      simp only [hrun, List.drop_left, Option.some.injEq, Prod.mk.injEq] at h
      obtain ⟨hkind, rfl⟩ := h
      have hplain : Longest .identifier (c :: body ++ tail) (c :: body) tail := by
        refine ⟨rfl, ⟨c, body, rfl, hc, hbody⟩, ?_⟩
        rintro _ behind htext ⟨d, other, rfl, hd, hother⟩
        refine length_le_of_run htext (List.forall_mem_cons.mpr ⟨?_, hother⟩) htail
        rw [isIdentifierPart, hd, Bool.true_or]
      split at hkind
      · next hends =>
          cases hlookup : keywords.lookup (String.ofList (c :: body)) with
          | none =>
              rw [hlookup, Option.getD_none] at hkind
              subst hkind
              exact hplain.of_append rfl
          | some found =>
              rw [hlookup, Option.getD_some] at hkind
              subst hkind
              have hmem := mem_of_lookup hlookup
              have hfound {lexeme rest : List Char} := @candidate_keyword found
                (List.mem_map_of_mem hmem) lexeme rest
              refine Longest.of_append ⟨rfl, hfound.mpr ⟨⟨_, hmem, ?_⟩, hends⟩, ?_⟩ rfl
              · rw [String.toList_ofList]
              · intro other behind htext hother
                obtain ⟨⟨text, htextmem, rfl⟩, -⟩ := hfound.mp hother
                have hall := List.all_eq_true.mp (keywords_words _ htextmem)
                exact length_le_of_run htext hall htail
      · subst hkind
        exact hplain.of_append rfl
  · simp at h

theorem symbols_ordered :
    symbols.Pairwise fun entry other => ¬ entry.1.toList <+: other.1.toList := by
  decide

/-- The first symbol that a text begins with is the longest of all. -/
theorem length_le_of_find? {text : List Char} {entry : String × TokenKind}
    (h : symbols.find? (fun entry => entry.1.toList.isPrefixOf text) = some entry) :
    ∀ other ∈ symbols, other.1.toList <+: text →
      other.1.toList.length ≤ entry.1.toList.length := by
  obtain ⟨hentry, before, behind, hsymbols, hbefore⟩ := List.find?_eq_some_iff_append.mp h
  rw [List.isPrefixOf_iff_prefix] at hentry
  intro other hother hprefix
  rw [hsymbols, List.mem_append, List.mem_cons] at hother
  rcases hother with hearlier | rfl | hlater
  · have hnot := hbefore other hearlier
    rw [Bool.not_eq_true', ← Bool.not_eq_true, List.isPrefixOf_iff_prefix] at hnot
    exact absurd hprefix hnot
  · exact Nat.le_refl _
  · have hordered := symbols_ordered
    rw [hsymbols, List.pairwise_append, List.pairwise_cons] at hordered
    have hnot := hordered.2.1.1 other hlater
    by_contra hlonger
    exact hnot (List.prefix_of_prefix_length_le hentry hprefix (by omega))

theorem candidate_symbol {entry : String × TokenKind} (hentry : entry ∈ symbols) :
    Candidate entry.2 entry.1.toList rest := by
  cases hoperator : entry.2.isOperator with
  | true => exact (candidate_operator hoperator).mpr ⟨entry, hentry, hoperator, rfl⟩
  | false =>
      have hkind := List.mem_map_of_mem (f := Prod.snd) hentry
      exact (candidate_punctuation hkind hoperator).mpr ⟨entry.1, hentry, rfl⟩

/-- Only symbols are of a symbol's class. -/
theorem exists_symbol_of_candidate {entry : String × TokenKind} (hentry : entry ∈ symbols)
    {other : List Char} (h : Candidate entry.2 other rest) :
    ∃ found ∈ symbols, other = found.1.toList := by
  cases hoperator : entry.2.isOperator with
  | true =>
      obtain ⟨found, hfound, -, hother⟩ := (candidate_operator hoperator).mp h
      exact ⟨found, hfound, hother⟩
  | false =>
      have hkind := List.mem_map_of_mem (f := Prod.snd) hentry
      obtain ⟨text, hfound, hother⟩ := (candidate_punctuation hkind hoperator).mp h
      exact ⟨_, hfound, hother⟩

theorem longest_of_symbol (h : symbol c rest = some (kind, n)) :
    ReadsLongest kind c rest n := by
  unfold symbol at h
  obtain ⟨entry, hfind, hfound⟩ := Option.map_eq_some_iff.mp h
  obtain ⟨rfl, rfl⟩ := Prod.mk.inj hfound
  have hentry := List.mem_of_find?_eq_some hfind
  have hfront : entry.1.toList.isPrefixOf (c :: rest) = true := by
    simpa using List.find?_some hfind
  obtain ⟨tail, htail⟩ := List.isPrefixOf_iff_prefix.mp hfront
  have hsymbol : Longest entry.2 (c :: rest) entry.1.toList tail := by
    refine ⟨htail.symm, candidate_symbol hentry, fun other behind htext hother => ?_⟩
    obtain ⟨found, hmem, rfl⟩ := exists_symbol_of_candidate hentry hother
    exact length_le_of_find? hfind found hmem ⟨behind, htext.symm⟩
  obtain ⟨d, body, hbody⟩ := List.exists_cons_of_ne_nil (symbols_ne_nil entry hentry)
  rw [hbody, List.cons_append, List.cons.injEq] at htail
  obtain ⟨rfl, rfl⟩ := htail
  rw [hbody] at hsymbol
  exact hsymbol.of_append (by rw [← String.length_toList, hbody]; rfl)

/-- Digits that a number would give up its end for are not more than it has. -/
theorem length_le_of_digits {digits tail : List Char} (h : rest = digits ++ tail)
    (hdigits : ∀ d ∈ digits, isDecimalDigit d = true) (hends : endsWord (rest.drop n) = true) :
    digits.length ≤ n := by
  by_contra hshort
  have hsplit : rest.drop n = digits.drop n ++ tail := by
    rw [h, List.drop_append_of_le_length (by omega)]
  cases hmore : digits.drop n with
  | nil =>
      rw [List.drop_eq_nil_iff] at hmore
      exact hshort hmore
  | cons d more =>
      rw [hsplit, hmore] at hends
      have hdigit := hdigits d (List.mem_of_mem_drop (hmore ▸ List.mem_cons_self))
      rw [isDecimalDigit_of_endsWord hends d rfl] at hdigit
      cases hdigit

theorem longest_of_number (h : number c rest = some (kind, n)) :
    ReadsLongest kind c rest n := by
  obtain ⟨digits, fraction, exponent, tail, hrest, hn, rfl, hc, hdigits, hfraction, hexponent⟩ :=
    exists_number h
  have hends : endsWord (rest.drop n) = true := (spelled_of_number h).bounded (by decide)
  have hlexeme : rest.take n = digits ++ fraction ++ exponent := by rw [hrest, hn, List.take_left]
  have hall : ∀ d ∈ c :: digits, isDecimalDigit d = true := List.forall_mem_cons.mpr ⟨hc, hdigits⟩
  refine ⟨by simp [hrest, hn], by rw [List.cons_append, List.take_append_drop],
    ⟨⟨c :: digits, fraction, exponent, by rw [hlexeme]; rfl, List.cons_ne_nil _ _, hall, hfraction,
      hexponent⟩, hends⟩, ?_⟩
  rintro _ more htext ⟨⟨run, places, power, rfl, hne, hrun, hplaces, hpower⟩, hmore⟩
  obtain ⟨d, run, rfl⟩ := List.exists_cons_of_ne_nil hne
  have htail : rest = run ++ places ++ power ++ more := (List.cons.inj htext).2
  have hdigits' := (List.forall_mem_cons.mp hrun).2
  have hle : (run ++ places ++ power).length ≤ n := by
    by_cases hpoint : '.' ∈ more.head? → places ++ power ≠ []
    · rw [htail, number_of_parts hc hdigits' hplaces hpower hmore hpoint] at h
      exact Nat.le_of_eq (Prod.mk.inj (Option.some.inj h)).2
    · -- Digits in front of a point, so that the lexeme has them all.
      obtain ⟨-, hnone⟩ := Classical.not_imp.mp hpoint
      rw [List.append_assoc, not_not.mp hnone, List.append_nil]
      rw [List.append_assoc run, not_not.mp hnone, List.append_nil] at htail
      exact length_le_of_digits htail hdigits' hends
  rw [hlexeme, List.length_cons, ← hn]
  exact Nat.succ_le_succ hle

theorem longest_of_unknown (h : unknown c rest = some (kind, n)) :
    ReadsLongest kind c rest n := by
  unfold unknown at h
  split at h
  · simp at h
  · next hc =>
      cases h
      refine ⟨Nat.zero_le _, rfl, ⟨c, rfl, hc⟩, ?_⟩
      rintro _ tail _ ⟨other, rfl, -⟩
      exact Nat.le_refl 1

/-- Whatever is read is the longest lexeme of its class. -/
theorem longest_of_read? (h : read? c rest = some (kind, n)) :
    ReadsLongest kind c rest n := by
  unfold read? rules at h
  rcases findSome?_rules h with h | ⟨-, h⟩
  · exact longest_of_comment h
  rcases findSome?_rules h with h | ⟨-, h⟩
  · exact longest_of_newline h
  rcases findSome?_rules h with h | ⟨-, h⟩
  · exact longest_of_blanks h
  rcases findSome?_rules h with h | ⟨-, h⟩
  · exact longest_of_stringLiteral h
  rcases findSome?_rules h with h | ⟨-, h⟩
  · exact longest_of_charLiteral h
  rcases findSome?_rules h with h | ⟨-, h⟩
  · exact longest_of_printCall h
  rcases findSome?_rules h with h | ⟨-, h⟩
  · exact longest_of_word h
  rcases findSome?_rules h with h | ⟨-, h⟩
  · exact longest_of_number h
  rcases findSome?_rules h with h | ⟨-, h⟩
  · exact longest_of_symbol h
  rcases findSome?_rules h with h | ⟨-, h⟩
  · exact longest_of_unknown h
  · simp at h

end Rules

/-- Whether a text ends in a backslash that escapes what comes next, one that is not escaped
itself. -/
def endsInEscape (text : List Char) : Bool :=
  text.foldl (fun escaping c => !escaping && c == '\\') false

theorem Quotable.endsInEscape {body : List Char} (h : Quotable '"' body) :
    endsInEscape body = false ∧ ∀ front back, body = front ++ '"' :: back →
      endsInEscape front = true := by
  induction h with
  | nil => exact ⟨rfl, fun front back h => by simp at h⟩
  | @plain c body hquote hslash _ _ ih =>
      have hstart (text : List Char) :
          Lexeme.endsInEscape (c :: text) = Lexeme.endsInEscape text := by
        simp [Lexeme.endsInEscape, beq_eq_false_iff_ne.mpr hslash]
      refine ⟨(hstart body).trans ih.1, fun front back h => ?_⟩
      cases front with
      | nil => exact absurd (List.cons.inj h).1 hquote
      | cons d front =>
          obtain ⟨rfl, hbody⟩ := List.cons.inj h
          exact (hstart front).trans (ih.2 front back hbody)
  | @escape c body _ _ ih =>
      have hstart (text : List Char) :
          Lexeme.endsInEscape ('\\' :: c :: text) = Lexeme.endsInEscape text := by
        simp [Lexeme.endsInEscape]
      refine ⟨(hstart body).trans ih.1, fun front back h => ?_⟩
      match front, h with
      | [], h => simp at h
      | [d], h =>
          obtain ⟨rfl, -⟩ := List.cons.inj h
          rfl
      | d :: e :: front, h =>
          simp only [List.cons_append, List.cons.injEq] at h
          obtain ⟨rfl, rfl, hbody⟩ := h
          exact (hstart front).trans (ih.2 front back hbody)

end Lexeme

namespace Token

/-- How a token's lexeme ends in a text that begins with it. -/
structure Ends (token : Token) (text rest : List Char) : Prop where
  longest : Longest token.kind text token.lexeme.toList rest
  operator : token.kind.isOperator = true → ∀ entry ∈ symbols, entry.2.isOperator = true →
    entry.1.toList <+: text → entry.1.toList.length ≤ token.lexeme.toList.length
  identifier : token.kind = .identifier → ∀ c ∈ rest.head?,
    isAsciiLetter c = false ∧ isAsciiDigit c = false ∧ c ≠ '_'
  word : token.kind ∈ boundedKinds → ∀ c ∈ rest.head?, isWord c = false
  string : token.kind = .stringLiteral → ∃ body, token.lexeme.toList = '"' :: (body ++ ['"']) ∧
    endsInEscape body = false ∧
    ∀ front back, body = front ++ '"' :: back → endsInEscape front = true
  block : token.kind = .comment → ∀ inner, token.lexeme.toList = '/' :: '*' :: inner →
    ∃ body, inner = body ++ ['*', '/'] ∧
      ∀ front back, inner ++ rest = front ++ '*' :: '/' :: back → body.length ≤ front.length

variable {source : String} {token : Token}

theorem ends_of_mem_scan (h : token ∈ scan .start source.toList) :
    token.Ends (token.position.textAt source.toList) (token.behind source) := by
  have hspelled := spelled_behind h
  have hlongest : Longest token.kind (token.position.textAt source.toList) token.lexeme.toList
      (token.behind source) := by
    obtain ⟨c, rest, n, htext, hread, hlexeme, hbehind⟩ := exists_read h
    rw [htext, hlexeme, hbehind]
    exact (longest_of_read? hread).longest
  have hcandidate := hlongest.candidate
  refine ⟨hlongest, ?operator, ?identifier, ?word, ?string, ?block⟩
  case operator =>
    intro hkind entry hentry hoperator ⟨tail, htail⟩
    exact hlongest.longest _ tail htail.symm
      ((candidate_operator hkind).mpr ⟨entry, hentry, hoperator, rfl⟩)
  case identifier =>
    intro hkind c hc
    rw [hkind] at hspelled
    have hpart := hspelled.head_of_identifier c hc
    simp only [isIdentifierPart, isIdentifierStart, Bool.or_eq_false_iff,
      beq_eq_false_iff_ne] at hpart
    exact ⟨hpart.1.1, hpart.2, hpart.1.2⟩
  case word =>
    intro hkind
    exact endsWord_iff.mp (hspelled.bounded hkind)
  case string =>
    intro hkind
    rw [hkind] at hcandidate
    obtain ⟨body, hlexeme, hbody⟩ := hcandidate
    exact ⟨body, hlexeme, hbody.endsInEscape⟩
  case block =>
    intro hkind inner hinner
    rw [hkind] at hcandidate
    rcases hcandidate with ⟨body, hlexeme, -⟩ | ⟨body, hlexeme, hbody⟩
    · simp [hinner] at hlexeme
    · obtain rfl : inner = body ++ ['*', '/'] := by simpa [hinner] using hlexeme
      refine ⟨body, rfl, fun front back hclose => ?_⟩
      rw [List.append_assoc] at hclose
      exact length_le_of_close hclose.symm hbody

/-- Every lexeme, kept or skipped, is the longest of its class that begins at its position. Behind
an identifier stands no character of identifiers, behind a number, a print call or a keyword no word
character; a string ends at its first quote that is not escaped and a block comment at its first
`*/`. -/
theorem maximal_munch (source : String) :
    (tokenize source).Sublist (scan .start source.toList) ∧
      ∀ token ∈ scan .start source.toList,
        token.Ends (token.position.textAt source.toList) (token.behind source) :=
  ⟨List.filter_sublist, fun _ => ends_of_mem_scan⟩

/-- A number that gives up its fraction, in front of the point. -/
theorem maximal_munch_fraction :
    ∃ token ∈ scan .start "1.5e3x".toList, token.kind = .number ∧ token.lexeme = "1" ∧
      token.Ends (token.position.textAt "1.5e3x".toList) (token.behind "1.5e3x") := by
  have hmem : (⟨.number, "1", ⟨1, 1⟩⟩ : Token) ∈ scan .start "1.5e3x".toList := by
    decide +kernel
  exact ⟨_, hmem, rfl, rfl, (maximal_munch "1.5e3x").2 _ hmem⟩

end Token

end MiniJava
