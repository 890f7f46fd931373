import MiniJava.Scope.SymbolTable
import MiniJava.Syntax.Program

/-!
# Tables that extend one another

What a name is declared as does not depend on whether it has been assigned or may be: a table is
bare if it keeps neither. A table extends another by some names if it has the scopes of the other,
with further declarations of these names in the innermost one.
-/

namespace MiniJava

def Symbol.bare (symbol : Symbol) : Symbol := ⟨symbol.type, symbol.position, true, false⟩

namespace Scope

def bare (scope : Scope) : Scope := scope.map fun entry => (entry.1, entry.2.bare)

theorem lookup_bare (scope : Scope) (name : String) :
    scope.bare.lookup name = (scope.lookup name).map Symbol.bare := by
  induction scope with
  | nil => rfl
  | cons entry rest ih =>
      change List.lookup name ((entry.1, entry.2.bare) :: Scope.bare rest) = _
      rw [List.lookup_cons, List.lookup_cons, ih]
      cases name == entry.1 <;> rfl

theorem bare_mark (scope : Scope) (name : String) : (scope.mark name).bare = scope.bare := by
  rw [bare, mark, List.map_map]
  refine List.map_congr_left fun entry _ => ?_
  rw [Function.comp_apply]
  split <;> rfl

/-- Declarations of other names do not hide a name. -/
theorem lookup_append {front scope : Scope} {name : String}
    (h : ∀ entry ∈ front, entry.1 ≠ name) : (front ++ scope).lookup name = scope.lookup name := by
  induction front with
  | nil => rfl
  | cons entry rest ih =>
      rw [List.cons_append, List.lookup_cons,
        beq_false_of_ne (h entry List.mem_cons_self).symm]
      exact ih fun other hother => h other (List.mem_cons_of_mem _ hother)

end Scope

namespace SymbolTable

def bare (table : SymbolTable) : SymbolTable := ⟨table.current.bare, table.enclosing.map Scope.bare⟩

def bring (table : SymbolTable) (name : String) (symbol : Symbol) : SymbolTable :=
  match table.current.lookup name with
  | some _ => table
  | none => { table with current := (name, symbol) :: table.current }

def bringParams (table : SymbolTable) (params : List Param) : SymbolTable :=
  params.foldl (fun table param =>
    table.bring param.name ⟨.ofTypeName param.type, param.position, true, false⟩) table

section Bare

variable (table : SymbolTable) (name : String) (symbol : Symbol)

theorem bare_leave : table.leave.bare = table.bare.leave := by
  cases table with
  | mk current enclosing => cases enclosing <;> rfl

theorem bare_bring : (table.bring name symbol).bare = table.bare.bring name symbol.bare := by
  have hlookup := table.current.lookup_bare name
  unfold bring
  cases h : table.current.lookup name with
  | none =>
      rw [h, Option.map_none] at hlookup
      simp only [bare, hlookup]
      rfl
  | some earlier =>
      rw [h, Option.map_some] at hlookup
      simp only [bare, hlookup]

theorem bare_markInitialized : (table.markInitialized name).bare = table.bare := by
  have hmarkIn (scopes : List Scope) :
      (markIn name scopes).map Scope.bare = scopes.map Scope.bare := by
    induction scopes with
    | nil => rfl
    | cons scope rest ih =>
        rw [markIn]
        split
        · rw [List.map_cons, List.map_cons, Scope.bare_mark]
        · rw [List.map_cons, List.map_cons, ih]
  unfold markInitialized
  split
  · simp only [bare, Scope.bare_mark]
  · simp only [bare, hmarkIn]

theorem resolve?_bare :
    table.bare.resolve? name = (table.resolve? name).map fun found => (found.1, found.2.bare) := by
  have hscopes (scopes : List Scope) : resolveIn name (scopes.map Scope.bare) =
      (resolveIn name scopes).map fun found => (found.1, found.2.bare) := by
    induction scopes with
    | nil => rfl
    | cons scope rest ih =>
        rw [List.map_cons, resolveIn, resolveIn, Scope.lookup_bare]
        cases scope.lookup name with
        | none => exact ih
        | some symbol => rw [List.length_map]; rfl
  exact hscopes table.scopes

end Bare

theorem lookup_bring (table : SymbolTable) (name used : String) (symbol : Symbol) :
    (table.bring name symbol).current.lookup used =
      if used = name then some ((table.current.lookup name).getD symbol)
      else table.current.lookup used := by
  unfold bring
  cases hlookup : table.current.lookup name with
  | some earlier =>
      by_cases hname : used = name
      · rw [if_pos hname, hname]
        exact hlookup
      · exact (if_neg hname).symm
  | none =>
      by_cases hname : used = name
      · simp [hname]
      · simp [hname, List.lookup_cons, beq_false_of_ne hname]

theorem bare_bringParams {table other : SymbolTable} (h : table.bare = other.bare)
    (params : List Param) : (table.bringParams params).bare = (other.bringParams params).bare := by
  induction params generalizing table other with
  | nil => exact h
  | cons param rest ih =>
      refine ih ?_
      rw [bare_bring, bare_bring, h]

/-- The name means what it did, or the new declaration if the scope had none. -/
theorem resolve?_bring_self (table : SymbolTable) (name : String) (symbol : Symbol) :
    (table.bring name symbol).resolve? name =
      some (table.enclosing.length, (table.current.lookup name).getD symbol) := by
  have henclosing : (table.bring name symbol).enclosing = table.enclosing := by
    unfold bring
    split <;> rfl
  rw [resolve?, scopes, resolveIn, lookup_bring, if_pos rfl, henclosing]

/-- The table `after` is `table` with declarations of some of `names` in its innermost scope. -/
def Extends (names : List String) (table after : SymbolTable) : Prop :=
  ∃ front : Scope, (∀ entry ∈ front, entry.1 ∈ names) ∧
    after.bare = ⟨front ++ table.bare.current, table.bare.enclosing⟩

namespace Extends

variable {names more : List String} {table between after : SymbolTable}

theorem of_bare (h : after.bare = table.bare) : Extends names table after :=
  ⟨[], nofun, h⟩

theorem refl (table : SymbolTable) : Extends names table table := of_bare rfl

theorem before (hbefore : between.bare = table.bare) (h : Extends names between after) :
    Extends names table after := by
  rwa [Extends, hbefore] at h

theorem behind (h : Extends names table between) (hafter : after.bare = between.bare) :
    Extends names table after := by
  rwa [Extends, ← hafter] at h

theorem mono (h : Extends names table after) (hsub : names ⊆ more) : Extends more table after := by
  obtain ⟨front, hfront, hafter⟩ := h
  exact ⟨front, fun entry hentry => hsub (hfront entry hentry), hafter⟩

theorem trans (h : Extends names table between) (hbehind : Extends more between after) :
    Extends (names ++ more) table after := by
  obtain ⟨front, hfront, hbetween⟩ := h
  obtain ⟨further, hfurther, hafter⟩ := hbehind
  refine ⟨further ++ front, fun entry hentry => ?_, ?_⟩
  · rcases List.mem_append.mp hentry with hnew | hold
    · exact List.mem_append_right _ (hfurther entry hnew)
    · exact List.mem_append_left _ (hfront entry hold)
  · rw [hafter, hbetween, List.append_assoc]

theorem bring (table : SymbolTable) (name : String) (symbol : Symbol) :
    Extends [name] table (table.bring name symbol) := by
  rw [Extends, bare_bring]
  unfold SymbolTable.bring
  cases table.bare.current.lookup name with
  | some earlier => exact ⟨[], nofun, rfl⟩
  | none => exact ⟨[(name, symbol.bare)], fun entry hentry => by simp_all, rfl⟩

theorem bringParams (table : SymbolTable) (params : List Param) :
    Extends (params.map Param.name) table (table.bringParams params) := by
  induction params generalizing table with
  | nil => exact refl table
  | cons param rest ih => exact (bring table ..).trans (ih _)

theorem bare_eq (h : Extends [] table after) : after.bare = table.bare := by
  obtain ⟨front, hfront, hafter⟩ := h
  have hnil : front = [] := List.eq_nil_iff_forall_not_mem.mpr fun entry hentry =>
    nomatch hfront entry hentry
  rw [hafter, hnil, List.nil_append]

/-- What is declared in a scope is gone when the scope is left. -/
theorem leave (h : Extends names table.enter after) : after.leave.bare = table.bare := by
  obtain ⟨front, -, hafter⟩ := h
  rw [bare_leave, hafter]
  rfl

theorem lookup (h : Extends names table after) {name : String} (hname : name ∉ names) :
    after.bare.current.lookup name = table.bare.current.lookup name := by
  obtain ⟨front, hfront, hafter⟩ := h
  rw [hafter]
  exact Scope.lookup_append fun entry hentry heq => hname (heq ▸ hfront entry hentry)

theorem resolve? (h : Extends names table after) {name : String} (hname : name ∉ names) :
    after.bare.resolve? name = table.bare.resolve? name := by
  have hlookup := h.lookup hname
  obtain ⟨front, -, hafter⟩ := h
  rw [hafter] at hlookup ⊢
  simp only [SymbolTable.resolve?, scopes, resolveIn, hlookup]

end Extends

end SymbolTable

end MiniJava
