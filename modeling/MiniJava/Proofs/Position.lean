import Mathlib.Data.List.DropRight
import MiniJava.Position

/-!
# Positions from counts

The position behind a text counts its newlines and the characters behind the last of them. The text
that is found at such a position is the text that follows, and positions increase with the text.
-/

namespace MiniJava.Position

/-- The position behind a text that begins at the start of a source. -/
def behind (text : List Char) : Position :=
  ⟨1 + text.count '\n', 1 + (text.rtakeWhile (· ≠ '\n')).length⟩

@[simp] theorem behind_nil : behind [] = start := rfl

theorem behind_concat (text : List Char) (c : Char) :
    behind (text ++ [c]) = (behind text).after c := by
  unfold behind after
  by_cases hc : c = '\n'
  · simp [hc, Nat.add_assoc]
  · simp [hc, Nat.add_assoc]

theorem behind_append (before text : List Char) :
    behind (before ++ text) = (behind before).advance text := by
  induction text generalizing before with
  | nil => simp
  | cons c text ih => rw [List.append_cons, ih, behind_concat, advance_cons]

def dropLines (text : List Char) : Nat → List Char
  | 0 => text
  | n + 1 => ((dropLines text n).dropWhile (· ≠ '\n')).tail

/-- The part of a text that begins at a position. -/
def textAt (p : Position) (text : List Char) : List Char :=
  (dropLines text (p.line - 1)).drop (p.column - 1)

theorem dropLines_count (before rest : List Char) :
    dropLines (before ++ rest) (before.count '\n') =
      before.rtakeWhile (· ≠ '\n') ++ rest := by
  induction before using List.reverseRecOn generalizing rest with
  | nil => rfl
  | append_singleton before c ih =>
      rw [List.append_assoc, List.singleton_append]
      by_cases hc : c = '\n'
      · have hline : ∀ b ∈ before.rtakeWhile (· ≠ '\n'), decide (b ≠ '\n') = true := by
          intro b hb
          exact List.mem_rtakeWhile_imp (p := (· ≠ '\n')) hb
        rw [hc, List.count_append, List.count_singleton_self, dropLines, ih,
          List.dropWhile_append_of_pos hline]
        simp
      · have hcount : (before ++ [c]).count '\n' = before.count '\n' := by simp [hc]
        rw [hcount, ih]
        simp [hc]

theorem textAt_behind (before rest : List Char) :
    textAt (behind before) (before ++ rest) = rest := by
  unfold textAt behind
  rw [Nat.add_sub_cancel_left, Nat.add_sub_cancel_left, dropLines_count, List.drop_left]

instance : LT Position := ⟨fun p q => p.line < q.line ∨ p.line = q.line ∧ p.column < q.column⟩

theorem lt_def {p q : Position} :
    p < q ↔ p.line < q.line ∨ p.line = q.line ∧ p.column < q.column := Iff.rfl

theorem lt_irrefl (p : Position) : ¬p < p := by
  rw [lt_def]
  omega

theorem lt_trans {p q r : Position} (hpq : p < q) (hqr : q < r) : p < r := by
  rw [lt_def] at *
  omega

theorem lt_after (p : Position) (c : Char) : p < p.after c := by
  unfold after
  rw [lt_def]
  split <;> simp

theorem lt_advance (p : Position) {text : List Char} (h : text ≠ []) : p < p.advance text := by
  induction text generalizing p with
  | nil => exact absurd rfl h
  | cons c text ih =>
      rw [advance_cons]
      by_cases htext : text = []
      · rw [htext, advance_nil]
        exact p.lt_after c
      · exact lt_trans (p.lt_after c) (ih (p.after c) htext)

end MiniJava.Position
