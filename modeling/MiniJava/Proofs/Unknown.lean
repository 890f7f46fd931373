import MiniJava.Proofs.Located

/-!
# Unknown characters

A character that is no part of the language gives a token of its own, and no reader takes it, also
where it looks ahead. So a source text with such a character is rejected: for the first of them, or
for a token in front of it.
-/

namespace MiniJava

/-- What is read without `bad` ends in front of it. -/
theorem exists_left_of_append {α : Type} {read rest front back : List α} {bad : α}
    (h : read ++ rest = front ++ bad :: back) (hbad : bad ∉ read) :
    ∃ left, front = read ++ left ∧ rest = left ++ bad :: back := by
  rcases List.append_eq_append_iff.mp h with ⟨left, hfront, hrest⟩ | ⟨more, hmore, hback⟩
  · exact ⟨left, hfront, hrest⟩
  · cases more with
    | nil => exact ⟨[], by simpa using hmore.symm, hback.symm⟩
    | cons other more =>
        obtain ⟨rfl, -⟩ := List.cons.inj hback
        exact absurd (hmore ▸ List.mem_append_right front List.mem_cons_self) hbad

namespace SyntaxError

/-- Where an error points, unless it points behind the table. -/
def position? : SyntaxError → Option Position
  | .invalidCharacter _ position => some position
  | .unexpectedToken _ _ position => some position
  | .unexpectedEnd _ => none

theorem position?_atNext (expected : Expected) (token : Token) (rest : List Token) :
    (atNext expected (token :: rest)).position? = some token.position := by
  rw [atNext]
  split <;> rfl

/-- An invalid character is the one of the token that the error stands at. -/
theorem eq_of_atNext_invalidCharacter {expected : Expected} {token : Token} {rest : List Token}
    {char : Char} {position : Position} (hlexical : token.IsLexical)
    (h : atNext expected (token :: rest) = .invalidCharacter char position) :
    token.kind = .error ∧ token.lexeme.toList = [char] ∧ token.position = position := by
  by_cases hkind : token.kind = .error
  · obtain ⟨c, hc⟩ := Token.lexeme_of_error hlexical hkind
    rw [atNext, if_pos hkind, hc] at h
    obtain ⟨rfl, rfl⟩ := SyntaxError.invalidCharacter.inj h
    exact ⟨hkind, hc, rfl⟩
  · rw [atNext, if_neg hkind] at h
    cases h

end SyntaxError

namespace Program

open Grammar

/-- Reading stops at the first unknown character of a source text or in front of it. -/
theorem exists_left_of_unknown {source : String} {front back : List Token} {bad : Token}
    (htable : tokenize source = front ++ bad :: back) (hbad : bad.kind = .error) :
    ∃ expected read left, front = read ++ left ∧
      ofSource source = .error (.atNext expected (left ++ bad :: back)) := by
  have hends {rest : List Token} (h : ReadsTo (tokenize source) rest) :
      ∃ read left, front = read ++ left ∧ rest = left ++ bad :: back := by
    obtain ⟨read, hread, hknown⟩ := h
    have hmem : bad ∈ tokenize source := htable ▸ List.mem_append_right front List.mem_cons_self
    have hlexical := Token.isLexical_of_mem_tokenize hmem
    have hnot : bad ∉ read := fun hmem => hknown bad hmem hlexical hbad
    exact ⟨read, exists_left_of_append (hread.symm.trans htable) hnot⟩
  cases hread : ofSource source with
  | ok program =>
      obtain ⟨_, left, -, hnil⟩ := hends (readsTo_of_accepted hread)
      cases left <;> cases hnil
  | error error =>
      obtain ⟨expected, rest, hrest, rfl⟩ := stops_of_rejected hread
      obtain ⟨read, left, hfront, rfl⟩ := hends hrest
      exact ⟨expected, read, left, hfront, rfl⟩

/-- The first unknown character of a source text is blamed, or a token in front of it, and nothing
behind what is blamed is read. -/
theorem unknown_blamed {source : String} {front back : List Token} {bad : Token}
    (htable : tokenize source = front ++ bad :: back) (hbad : bad.kind = .error)
    (hfront : ∀ token ∈ front, token.kind ≠ .error) :
    ∃ error expected read left, ofSource source = .error error ∧ front = read ++ left ∧
      error = .atNext expected (left ++ bad :: back) ∧
      (∃ position, error.position? = some position ∧
        (position = bad.position ∨ position < bad.position)) ∧
      ∀ char position, error = .invalidCharacter char position →
        bad.lexeme.toList = [char] ∧ bad.position = position := by
  obtain ⟨expected, read, left, hread, herror⟩ := exists_left_of_unknown htable hbad
  refine ⟨_, expected, read, left, herror, hread, rfl, ?_⟩
  have hlexical {token : Token} (hmem : token ∈ front ++ bad :: back) : token.IsLexical :=
    Token.isLexical_of_mem_tokenize (htable ▸ hmem)
  have hsorted : (front ++ bad :: back).Pairwise fun a b => a.position < b.position :=
    htable ▸ (Token.tiling_scan .start source.toList [] Position.behind_nil).pairwise_lt
  cases left with
  | nil =>
      refine ⟨⟨bad.position, SyntaxError.position?_atNext _ _ _, .inl rfl⟩,
        fun char position h => ?_⟩
      exact (SyntaxError.eq_of_atNext_invalidCharacter (hlexical (by simp)) h).2
  | cons token left =>
      have hmem : token ∈ front := hread ▸ List.mem_append_right read List.mem_cons_self
      refine ⟨⟨token.position, SyntaxError.position?_atNext _ _ _, .inr ?_⟩,
        fun char position h => ?_⟩
      · exact (List.pairwise_append.mp hsorted).2.2 token hmem bad List.mem_cons_self
      · have hkind := SyntaxError.eq_of_atNext_invalidCharacter
          (hlexical (List.mem_append_left _ hmem)) h
        exact absurd hkind.1 (hfront token hmem)

/-- An unknown character where a value is missing, and a second one that is not reported. -/
theorem unknown_blamed_value :
    ∃ front bad back, tokenize "x = #; $" = front ++ bad :: back ∧ bad.kind = .error ∧
      (∀ token ∈ front, token.kind ≠ .error) ∧
      ∃ error expected read left, ofSource "x = #; $" = .error error ∧ front = read ++ left ∧
        error = .atNext expected (left ++ bad :: back) ∧
        (∃ position, error.position? = some position ∧
          (position = bad.position ∨ position < bad.position)) ∧
        ∀ char position, error = .invalidCharacter char position →
          bad.lexeme.toList = [char] ∧ bad.position = position := by
  have htable : tokenize "x = #; $" =
      [⟨.identifier, "x", 1, 1⟩, ⟨.assignmentOperator, "=", 1, 3⟩] ++
        ⟨.error, "#", 1, 5⟩ :: [⟨.delimiter, ";", 1, 6⟩, ⟨.error, "$", 1, 8⟩] := by
    decide +kernel
  exact ⟨_, _, _, htable, rfl, by decide, unknown_blamed htable rfl (by decide)⟩

end Program

end MiniJava
