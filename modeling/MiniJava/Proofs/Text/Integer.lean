import MiniJava.Text.CharClass

/-!
# Integers as they are written
-/

namespace MiniJava.Text

theorem isAsciiDigit_of_mem_repr {n : Nat} {c : Char} (h : c ∈ n.repr.toList) :
    isAsciiDigit c = true := by
  rw [Nat.toList_repr] at h
  have hdigit := Nat.isDigit_of_mem_toDigits (by decide) (by decide) h
  simpa [Char.isDigit, isAsciiDigit, Char.le_def] using hdigit

theorem repr_ne_nil (n : Nat) : n.repr.toList ≠ [] := by
  rw [Nat.toList_repr]
  exact Nat.toDigits_ne_nil

theorem digitsValue_repr (n : Nat) : digitsValue n.repr.toList = n := by
  rw [Nat.toList_repr]
  exact Nat.ofDigitChars_toDigits (by decide) (by decide)

theorem magnitude?_repr (n : Nat) : magnitude? n.repr.toList = some n := by
  have hall : n.repr.toList.all isAsciiDigit = true :=
    List.all_eq_true.mpr fun _ hc => isAsciiDigit_of_mem_repr hc
  simp only [magnitude?, hall, digitsValue_repr, Bool.and_true, Bool.not_eq_true',
    List.isEmpty_eq_false_iff, if_pos (repr_ne_nil n)]

/-- Only zero is written with a zero in front. -/
theorem head?_repr {n : Nat} (h : 0 < n) : n.repr.toList.head? ≠ some '0' := by
  have hdigit : ∀ n < 10, 0 < n → n.digitChar ≠ '0' := by decide
  rw [Nat.toList_repr]
  induction n using Nat.strongRecOn with
  | ind n ih =>
      rw [Nat.toDigits_eq_if (by decide)]
      split
      · next hlt =>
          simpa using hdigit n hlt h
      · next hle =>
          have hfront := ih (n / 10) (by omega) (by omega)
          cases hdigits : Nat.toDigits 10 (n / 10) with
          | nil => exact absurd hdigits Nat.toDigits_ne_nil
          | cons c rest =>
              rw [hdigits] at hfront
              exact hfront

/-- The 64-bit integer that digits are read as is the number that they stand for. -/
theorem signedValue?_of_magnitude? {digits : List Char} {n : Nat}
    (h : magnitude? digits = some n) : signedValue? digits = some (n : Int) := by
  have hdigits : ∀ c ∈ digits, isAsciiDigit c = true := by
    unfold magnitude? at h
    split at h
    · next hall =>
        rw [Bool.and_eq_true, List.all_eq_true] at hall
        exact hall.2
    · cases h
  unfold signedValue?
  split
  · exact absurd (hdigits '+' List.mem_cons_self) (by decide)
  · exact absurd (hdigits '-' List.mem_cons_self) (by decide)
  · rw [h]
    rfl

theorem mem_toString {n : Int} {c : Char} (h : c ∈ (toString n).toList) :
    c = '-' ∨ c.isDigit = true := by
  have hdigit : ∀ {m : Nat}, c ∈ m.repr.toList → c.isDigit = true := by
    intro m hmem
    rw [Nat.toList_repr] at hmem
    exact Nat.isDigit_of_mem_toDigits (by decide) (by decide) hmem
  rw [Int.toString_eq_repr] at h
  cases n with
  | ofNat m => exact .inr (hdigit h)
  | negSucc m =>
      rw [Int.repr, String.toList_append, List.mem_append] at h
      rcases h with hsign | hmem
      · exact .inl (List.mem_singleton.mp hsign)
      · exact .inr (hdigit hmem)

theorem toString_ne_empty (n : Int) : (toString n).toList ≠ [] := by
  rw [Int.toString_eq_repr]
  cases n with
  | ofNat m => exact repr_ne_nil m
  | negSucc m =>
      rw [Int.repr, String.toList_append]
      exact List.cons_ne_nil _ _

end MiniJava.Text
