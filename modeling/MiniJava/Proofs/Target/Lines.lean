import MiniJava.Lowering.Statement

/-!
# Lines of emitted code

The lines of statements that stand one behind the other, of suites, of class bodies and of the parts
of a chain, put together from those of their parts.
-/

namespace MiniJava.Target

theorem Line.utf8ByteSize_toText_pos (line : Line) : 0 < line.toText.utf8ByteSize := by
  have hend : 0 < "\n".utf8ByteSize := by decide
  rw [toText, String.utf8ByteSize_append]
  exact Nat.add_pos_right _ hend

def filled (level : Nat) (lines : List Line) : List Line :=
  if lines = [] then [⟨level, "pass"⟩] else lines

namespace Stmt

theorem lines_ne_nil (level : Nat) (s : Stmt) : s.lines level ≠ [] := by
  cases s with
  | tryExcept body handlers cleanup => cases cleanup <;> simp [lines]
  | returns value => cases value <;> simp [lines]
  | _ => simp [lines]

theorem allLines_append (level : Nat) (front rest : List Stmt) :
    allLines level (front ++ rest) = allLines level front ++ allLines level rest := by
  induction front with
  | nil => rw [allLines, List.nil_append, List.nil_append]
  | cons first front ih => rw [List.cons_append, allLines, allLines, ih, List.append_assoc]

theorem allLines_single (level : Nat) (s : Stmt) : allLines level [s] = s.lines level := by
  rw [allLines, allLines, List.append_nil]

theorem suite_eq (level : Nat) (body : List Stmt) :
    suite level body = filled level (allLines level body) := by
  cases body with
  | nil => rw [suite, allLines, filled, if_pos rfl]
  | cons first rest =>
      have hne : lines level first ++ allLines level rest ≠ [] :=
        fun h => lines_ne_nil level first (List.append_eq_nil_iff.mp h).1
      rw [suite, allLines, filled, if_neg hne]

def memberLines (behind : Bool) (level : Nat) : List Stmt → List Line
  | [] => []
  | first :: rest =>
    (if behind && first.isDefinition then [.blank] else []) ++ lines level first ++
      spacedLines level rest

theorem memberLines_true (level : Nat) (body : List Stmt) :
    memberLines true level body = spacedLines level body := by
  cases body with
  | nil => rw [memberLines, spacedLines]
  | cons first rest => rw [memberLines, spacedLines, Bool.true_and]

theorem spacedLines_append (level : Nat) (front rest : List Stmt) :
    spacedLines level (front ++ rest) = spacedLines level front ++ spacedLines level rest := by
  induction front with
  | nil => rw [spacedLines, List.nil_append, List.nil_append]
  | cons first front ih =>
      rw [List.cons_append, spacedLines, spacedLines, ih, List.append_assoc _ _ (_ ++ _),
        List.append_assoc, List.append_assoc]

theorem memberLines_append (level : Nat) (front rest : List Stmt) :
    memberLines false level (front ++ rest) =
      memberLines false level front ++ memberLines (!front.isEmpty) level rest := by
  cases front with
  | nil => rfl
  | cons first front =>
      rw [List.cons_append, memberLines, memberLines, spacedLines_append, ← List.append_assoc,
        ← memberLines_true level rest]
      rfl

theorem memberLines_false {body : List Stmt} (h : ∀ s ∈ body, s.isDefinition = false)
    (level : Nat) : memberLines false level body = allLines level body := by
  cases body with
  | nil => rw [memberLines, allLines]
  | cons first rest =>
      have hspaced : spacedLines level rest = allLines level rest := by
        have hrest := (List.forall_mem_cons.mp h).2
        clear h
        induction rest with
        | nil => rw [spacedLines, allLines]
        | cons next rest ih =>
            rw [List.forall_mem_cons] at hrest
            rw [spacedLines, allLines, ih hrest.2, if_neg (by simp [hrest.1]), List.nil_append]
      rw [memberLines, allLines, hspaced]
      rfl

theorem memberLines_eq_nil_iff (behind : Bool) (level : Nat) (body : List Stmt) :
    memberLines behind level body = [] ↔ body = [] := by
  cases body with
  | nil => rw [memberLines]; simp
  | cons first rest =>
      have hfirst := lines_ne_nil level first
      rw [memberLines]
      simp [hfirst]

def insideLines (level : Nat) : Stmt → List Line
  | classDef _ body => memberLines false level body
  | _ => []

theorem classSuite_eq (level : Nat) (body : List Stmt) :
    classSuite level body = filled level (memberLines false level body) := by
  cases body with
  | nil => rw [classSuite, memberLines, filled, if_pos rfl]
  | cons first rest =>
      have hne : lines level first ++ spacedLines level rest ≠ [] :=
        fun h => lines_ne_nil level first (List.append_eq_nil_iff.mp h).1
      rw [classSuite, memberLines, Bool.false_and, if_neg Bool.false_ne_true, List.nil_append,
        filled, if_neg hne]

def groupLines (begun : Bool) (level : Nat) : List (Expr × List Stmt) → List Line
  | [] => []
  | (condition, body) :: rest =>
    ⟨level, (if begun then "elif " else "if ") ++ condition.toText ++ ":"⟩ ::
      suite (level + 1) body ++ groupLines true level rest

def defaultLines (begun : Bool) (level : Nat) : Option (List Stmt) → List Line
  | none => []
  | some body =>
    if begun then ⟨level, "else:"⟩ :: suite (level + 1) body else allLines level body

theorem alternativeLines_alternatives (level : Nat) (default : Option (List Stmt))
    (groups : List (Expr × List Stmt)) :
    alternativeLines level (Lowering.alternatives default groups) =
      groupLines true level groups ++ defaultLines true level default := by
  induction groups with
  | nil =>
      cases default with
      | none => rw [Lowering.alternatives, alternativeLines, groupLines, defaultLines]; rfl
      | some body =>
          rw [Lowering.alternatives, alternativeLines, groupLines, defaultLines, if_pos rfl]; rfl
  | cons group rest ih =>
      obtain ⟨condition, body⟩ := group
      rw [Lowering.alternatives, alternativeLines, ih, groupLines, if_pos rfl, List.append_assoc]

theorem allLines_chain (level : Nat) (groups : List (Expr × List Stmt))
    (default : Option (List Stmt)) : allLines level (Lowering.chain groups default) =
      groupLines false level groups ++ defaultLines (!groups.isEmpty) level default := by
  cases groups with
  | nil => cases default <;> simp [Lowering.chain, groupLines, defaultLines, allLines]
  | cons group rest =>
      obtain ⟨condition, body⟩ := group
      rw [Lowering.chain, allLines_single, lines, alternativeLines_alternatives, groupLines,
        List.append_assoc]
      rfl

def cleanupLines (level : Nat) : Option (List Stmt) → List Line
  | none => []
  | some body => ⟨level, "finally:"⟩ :: suite (level + 1) body

theorem lines_tryExcept (level : Nat) (body : List Stmt) (handlers : List (Handler Stmt))
    (cleanup : Option (List Stmt)) : lines level (.tryExcept body handlers cleanup) =
      ⟨level, "try:"⟩ :: suite (level + 1) body ++ (handlerLines level handlers ++
        cleanupLines level cleanup) := by
  cases cleanup with
  | none => rw [lines, cleanupLines, List.append_nil]
  | some last => rw [lines, cleanupLines, List.append_assoc]

end Stmt

end MiniJava.Target
