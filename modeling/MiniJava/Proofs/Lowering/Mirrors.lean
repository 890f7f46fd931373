import MiniJava.Proofs.Evaluation.Statement
import MiniJava.Proofs.Lowering.Values

/-!
# Stores and the variables of Python

Python keeps the variables of all scopes in one place and never forgets one. It mirrors a store if
the variables in scope hold the same values there; those of scopes that have been left do not
matter, as long as no name is used twice.
-/

namespace MiniJava

open Python (Vars)

/-- A variable that the store has can be changed, and only this variable changes. -/
theorem Store.exists_assign {store : Store} {target : String} (h : target ∈ store.map Prod.fst)
    (value : Value) : ∃ after, store.assign target value = some after ∧
      after.map Prod.fst = store.map Prod.fst ∧ after.read target = some value ∧
      ∀ name, name ≠ target → after.read name = store.read name := by
  induction store with
  | nil => cases h
  | cons cell rest ih =>
      obtain ⟨used, old⟩ := cell
      by_cases hused : used = target
      · subst hused
        refine ⟨(used, value) :: rest, if_pos rfl, rfl, List.lookup_cons_self, fun name hname => ?_⟩
        rw [read, read, List.lookup_cons, List.lookup_cons, beq_false_of_ne hname]
      · obtain ⟨after, hassign, hnames, hself, hothers⟩ :=
          ih ((List.mem_cons.mp h).resolve_left (Ne.symm hused))
        refine ⟨(used, old) :: after, ?_, ?_, ?_, fun name hname => ?_⟩
        · rw [assign, if_neg hused, hassign]
          rfl
        · rw [List.map_cons, List.map_cons, hnames]
        · rw [read, List.lookup_cons, beq_false_of_ne (Ne.symm hused)]
          exact hself
        · rw [read, read, List.lookup_cons, List.lookup_cons]
          cases name == used with
          | true => rfl
          | false => exact hothers name hname

/-- Python's variables hold what the store holds, values of the types of the variables, and the
names of Python mean what they mean. -/
structure Mirrors (types : String → Option ValueType) (scope : List String) (store : Store)
    (vars : Vars) : Prop where
  names : store.map Prod.fst = scope
  cells : ∀ name ∈ scope, ∃ type, types name = some type ∧ SameValue type (store.read name) (vars name)
  free : ∀ name ∈ Python.reserved, vars name = none

namespace Mirrors

variable {types : String → Option ValueType} {scope : List String} {store : Store}
  {vars : Vars} {name : String} {value : Value}

theorem empty (types : String → Option ValueType) : Mirrors types [] [] .empty :=
  ⟨rfl, nofun, fun _ _ => rfl⟩

/-- A variable that both are given stands for itself. -/
theorem push (h : Mirrors types scope store vars) (htype : types name = some value.type)
    (hfree : name ∉ Python.reserved) :
    Mirrors types (name :: scope) ((name, value) :: store) (vars.set name value) := by
  refine ⟨congrArg (name :: ·) h.names, fun used hused => ?_, fun used hused => ?_⟩
  · by_cases heq : used = name
    · subst heq
      exact ⟨value.type, htype, value, rfl, List.lookup_cons_self, vars.set_self used value⟩
    · obtain ⟨type, hused, hagree⟩ := h.cells used ((List.mem_cons.mp hused).resolve_left heq)
      rw [vars.set_other value heq, Store.read, List.lookup_cons, beq_false_of_ne heq]
      exact ⟨type, hused, hagree⟩
  · rw [vars.set_other value (ne_of_mem_of_not_mem hused hfree)]
    exact h.free used hused

theorem assign (h : Mirrors types scope store vars) (value : Value) (hmem : name ∈ scope)
    (htype : types name = some value.type) (hfree : name ∉ Python.reserved) :
    ∃ after, store.assign name value = some after ∧
      (∀ used, used ≠ name → after.read used = store.read used) ∧
      Mirrors types scope after (vars.set name value) := by
  obtain ⟨after, hassign, hnames, hself, hothers⟩ := Store.exists_assign (h.names ▸ hmem) value
  refine ⟨after, hassign, hothers, hnames.trans h.names, fun used hused => ?_, fun used hused => ?_⟩
  · by_cases heq : used = name
    · subst heq
      exact ⟨value.type, htype, value, rfl, hself, vars.set_self used value⟩
    · rw [vars.set_other value heq, hothers used heq]
      exact h.cells used hused
  · rw [vars.set_other value (ne_of_mem_of_not_mem hused hfree)]
    exact h.free used hused

/-- A store that forgets variables is mirrored as before. -/
theorem leave {front : List String} (h : Mirrors types (front ++ scope) store vars)
    (hfront : ∀ name ∈ front, name ∉ scope) :
    Mirrors types scope (store.leave scope.length) vars := by
  have hsize : store.length - scope.length = front.length := by
    rw [← List.length_map Prod.fst, h.names, List.length_append, Nat.add_sub_cancel]
  have hsplit : store.take front.length ++ store.leave scope.length = store := by
    rw [Store.leave, hsize, List.take_append_drop]
  have hnames : (store.take front.length).map Prod.fst = front := by
    rw [List.map_take, h.names, List.take_left]
  have hread (used : String) (hused : used ∈ scope) :
      (store.leave scope.length).read used = store.read used := by
    have hnone : (store.take front.length).lookup used = none := by
      refine List.lookup_eq_none_iff.mpr fun cell hcell => bne_iff_ne.mpr fun heq => ?_
      exact hfront cell.1 (hnames ▸ List.mem_map_of_mem hcell) (heq ▸ hused)
    conv_rhs => rw [← hsplit]
    rw [Store.read, Store.read, List.lookup_append, hnone, Option.none_or]
  refine ⟨?_, fun used hused => ?_, h.free⟩
  · rw [Store.leave, hsize, List.map_drop, h.names, List.drop_left]
  · rw [hread used hused]
    exact h.cells used (List.mem_append_right _ hused)

/-- What Python does with a variable that is not in scope does not matter. -/
theorem of_set (h : Mirrors types scope store (vars.set name value)) (hname : name ∉ scope)
    (hfree : name ∉ Python.reserved) : Mirrors types scope store vars := by
  refine ⟨h.names, fun used hused => ?_, fun used hused => ?_⟩
  · rw [← vars.set_other value (ne_of_mem_of_not_mem hused hname)]
    exact h.cells used hused
  · rw [← vars.set_other value (ne_of_mem_of_not_mem hused hfree)]
    exact h.free used hused

end Mirrors

end MiniJava
