import MiniJava.Proofs.Scope.Extends

/-!
# Declarations of numbered scopes

The cell of a name in the scope with a given number is the scope's declaration of the name. What a
name resolves to is the cell in the innermost scope that has one. A cell lasts as long as its scope:
further scopes and declarations leave it as it is, and an assignment only marks it.
-/

namespace MiniJava

def Symbol.marked (symbol : Symbol) : Symbol := { symbol with initialized := true }

theorem Scope.lookup_mark (name used : String) (scope : Scope) :
    (scope.mark name).lookup used =
      if used = name then (scope.lookup used).map Symbol.marked else scope.lookup used := by
  induction scope with
  | nil => simp [mark]
  | cons entry rest ih =>
      have hcons : Scope.mark name (entry :: rest) =
          (entry.1, if entry.1 = name then entry.2.marked else entry.2) :: Scope.mark name rest := by
        rw [mark, List.map_cons]
        split <;> rfl
      obtain ⟨key, symbol⟩ := entry
      rw [hcons, List.lookup_cons, List.lookup_cons, ih]
      by_cases hused : used = key
      · subst hused
        by_cases hname : used = name <;> simp [hname]
      · simp [beq_false_of_ne hused]

namespace SymbolTable

def cellIn (number : Nat) (name : String) : List Scope → Option Symbol
  | [] => none
  | scope :: outer =>
    if outer.length = number then scope.lookup name else cellIn number name outer

/-- The declaration of a name in the scope with this number. -/
def cell? (table : SymbolTable) (number : Nat) (name : String) : Option Symbol :=
  cellIn number name table.scopes

theorem resolveIn_lt {name : String} {number : Nat} {symbol : Symbol} {scopes : List Scope}
    (h : resolveIn name scopes = some (number, symbol)) : number < scopes.length := by
  induction scopes with
  | nil => cases h
  | cons scope outer ih =>
      rw [resolveIn] at h
      cases hlookup : scope.lookup name with
      | some found =>
          rw [hlookup] at h
          cases h
          exact Nat.lt_succ_self _
      | none =>
          rw [hlookup] at h
          exact Nat.lt_succ_of_lt (ih h)

/-- What a name resolves to is the cell in the scope that it resolves to. -/
theorem cellIn_of_resolveIn {name : String} {number : Nat} {symbol : Symbol} {scopes : List Scope}
    (h : resolveIn name scopes = some (number, symbol)) : cellIn number name scopes = some symbol := by
  induction scopes with
  | nil => cases h
  | cons scope outer ih =>
      rw [resolveIn] at h
      rw [cellIn]
      cases hlookup : scope.lookup name with
      | some found =>
          rw [hlookup] at h
          cases h
          exact if_pos rfl
      | none =>
          rw [hlookup] at h
          rw [if_neg (Nat.ne_of_gt (resolveIn_lt h))]
          exact ih h

theorem lt_of_cellIn {name : String} {number : Nat} {symbol : Symbol} {scopes : List Scope}
    (h : cellIn number name scopes = some symbol) : number < scopes.length := by
  induction scopes with
  | nil => cases h
  | cons scope outer ih =>
      rw [cellIn] at h
      by_cases hnumber : outer.length = number
      · exact hnumber ▸ Nat.lt_succ_self _
      · rw [if_neg hnumber] at h
        exact Nat.lt_succ_of_lt (ih h)

variable {table : SymbolTable} {number : Nat} {name : String}

theorem cell?_of_resolve? {symbol : Symbol} (h : table.resolve? name = some (number, symbol)) :
    table.cell? number name = some symbol := cellIn_of_resolveIn h

theorem cell?_enter {symbol : Symbol} (h : table.cell? number name = some symbol) :
    table.enter.cell? number name = some symbol :=
  (if_neg (Nat.ne_of_gt (lt_of_cellIn h))).trans h

theorem cell?_leave (h : number < table.leave.depth) :
    table.leave.cell? number name = table.cell? number name := by
  obtain ⟨current, enclosing⟩ := table
  cases enclosing with
  | nil => rfl
  | cons outer rest => exact (if_neg (Nat.ne_of_gt h)).symm

theorem cell?_bring {symbol : Symbol} (h : table.cell? number name = some symbol) (other : String)
    (added : Symbol) : (table.bring other added).cell? number name = some symbol := by
  have henclosing : (table.bring other added).enclosing = table.enclosing := by
    unfold bring
    split <;> rfl
  rw [cell?, scopes, cellIn] at h ⊢
  rw [henclosing, lookup_bring]
  by_cases hnumber : table.enclosing.length = number
  · rw [if_pos hnumber] at h ⊢
    by_cases hname : name = other
    · rw [if_pos hname, ← hname, h]
      rfl
    · rw [if_neg hname, h]
  · rw [if_neg hnumber] at h ⊢
    exact h

/-- A declaration that is new to the innermost scope becomes the cell of its name. -/
theorem cell?_bring_self (h : table.current.lookup name = none) (symbol : Symbol) :
    (table.bring name symbol).cell? table.enclosing.length name = some symbol := by
  have hresolve := table.resolve?_bring_self name symbol
  rw [h] at hresolve
  exact cell?_of_resolve? hresolve

/-- Which scope a name resolves to does not depend on what has been assigned. -/
theorem exists_resolve?_of_bare {other : SymbolTable} (h : other.bare = table.bare)
    {symbol : Symbol} (hresolve : table.resolve? name = some (number, symbol)) :
    ∃ found, other.resolve? name = some (number, found) := by
  have hbare := other.resolve?_bare name
  rw [h, resolve?_bare, hresolve, Option.map_some] at hbare
  obtain ⟨⟨_, found⟩, hfound, hsame⟩ := Option.map_eq_some_iff.mp hbare.symm
  obtain ⟨rfl, -⟩ := Prod.mk.inj hsame
  exact ⟨found, hfound⟩

theorem scopes_markInitialized (table : SymbolTable) (name : String) :
    (table.markInitialized name).scopes = markIn name table.scopes := by
  rw [markInitialized, scopes, scopes, markIn]
  split <;> rfl

theorem length_markIn (name : String) (scopes : List Scope) :
    (markIn name scopes).length = scopes.length := by
  induction scopes with
  | nil => rfl
  | cons scope outer ih =>
      rw [markIn]
      split
      · rfl
      · rw [List.length_cons, ih, List.length_cons]

/-- An assignment marks the cell that its target resolves to. -/
theorem cell?_markInitialized_self {symbol : Symbol}
    (h : table.resolve? name = some (number, symbol)) :
    (table.markInitialized name).cell? number name = some symbol.marked := by
  have hscopes (scopes : List Scope) (h : resolveIn name scopes = some (number, symbol)) :
      cellIn number name (markIn name scopes) = some symbol.marked := by
    induction scopes with
    | nil => cases h
    | cons scope outer ih =>
        rw [resolveIn] at h
        rw [markIn]
        cases hlookup : scope.lookup name with
        | some found =>
            rw [hlookup] at h
            cases h
            rw [if_pos Option.isSome_some, cellIn, if_pos rfl, Scope.lookup_mark, if_pos rfl, hlookup]
            rfl
        | none =>
            rw [hlookup] at h
            have hlt := resolveIn_lt h
            rw [if_neg (by simp), cellIn, length_markIn, if_neg (Nat.ne_of_gt hlt)]
            exact ih h
  rw [cell?, scopes_markInitialized]
  exact hscopes table.scopes h

/-- An assignment leaves a cell as it is unless its target resolves to this cell. -/
theorem cell?_markInitialized_other {symbol : Symbol} (h : table.cell? number name = some symbol)
    {target : String}
    (hother : target = name → ∀ found, table.resolve? name ≠ some (number, found)) :
    (table.markInitialized target).cell? number name = some symbol := by
  have hscopes (scopes : List Scope) (h : cellIn number name scopes = some symbol)
      (hother : target = name → ∀ found, resolveIn name scopes ≠ some (number, found)) :
      cellIn number name (markIn target scopes) = some symbol := by
    induction scopes with
    | nil => cases h
    | cons scope outer ih =>
        rw [cellIn] at h
        rw [markIn]
        by_cases hnumber : outer.length = number
        · rw [if_pos hnumber] at h
          have hne : name ≠ target := by
            rintro rfl
            exact hother rfl symbol (by rw [resolveIn, h, hnumber])
          split
          · rw [cellIn, if_pos hnumber, Scope.lookup_mark, if_neg hne, h]
          · rw [cellIn, length_markIn, if_pos hnumber, h]
        · rw [if_neg hnumber] at h
          split
          · rw [cellIn, if_neg hnumber, h]
          · rename_i hnone
            rw [cellIn, length_markIn, if_neg hnumber]
            refine ih h fun htarget found hfound => hother htarget found ?_
            rw [resolveIn, ← htarget, Option.not_isSome_iff_eq_none.mp hnone, htarget]
            exact hfound
  rw [cell?, scopes_markInitialized]
  exact hscopes table.scopes h hother

/-- An assignment marks a cell or leaves it as it is. -/
theorem cell?_markInitialized {symbol : Symbol} (h : table.cell? number name = some symbol)
    (target : String) : (table.markInitialized target).cell? number name = some symbol ∨
      (table.markInitialized target).cell? number name = some symbol.marked := by
  by_cases hself : target = name ∧ ∃ found, table.resolve? name = some (number, found)
  · obtain ⟨rfl, found, hfound⟩ := hself
    obtain rfl := Option.some.inj (h.symm.trans (cell?_of_resolve? hfound))
    exact .inr (cell?_markInitialized_self hfound)
  · exact .inl (cell?_markInitialized_other h fun htarget found hfound =>
      hself ⟨htarget, found, hfound⟩)

end SymbolTable

end MiniJava
