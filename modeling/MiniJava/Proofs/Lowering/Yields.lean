import MiniJava.Lowering.Statement

/-!
# Postconditions of lowerings

What every result of a lowering satisfies, whatever is in scope when it starts. A lowering that
fails has no result.
-/

namespace MiniJava.Lowering

variable {α β : Type}

theorem outcome_bind (action : Lowering α) (next : α → Lowering β) (table : SymbolTable) :
    (action >>= next).outcome table =
      match action.outcome table with
      | (.ok a, between) => (next a).outcome between
      | (.error error, between) => (.error error, between) := by
  change (ExceptT.bindCont next (action.outcome table).1).run (action.outcome table).2 = _
  cases action.outcome table with
  | mk result between => cases result <;> rfl

theorem outcome_bind_of_ok {action : Lowering α} {table between : SymbolTable} {a : α}
    (h : action.outcome table = (.ok a, between)) (next : α → Lowering β) :
    (action >>= next).outcome table = (next a).outcome between := by
  rw [outcome_bind, h]

/-- Two actions have a result if the first has one and the second has one behind it. -/
theorem exists_of_bind {action : Lowering α} {next : α → Lowering β} {table after : SymbolTable}
    {b : β} (h : (action >>= next).outcome table = (.ok b, after)) :
    ∃ a between, action.outcome table = (.ok a, between) ∧
      (next a).outcome between = (.ok b, after) := by
  rw [outcome_bind] at h
  cases haction : action.outcome table with
  | mk result between =>
      rw [haction] at h
      cases result with
      | error error => cases h
      | ok a => exact ⟨a, between, rfl, h⟩

/-- What has a result behind a refusal does not overflow. -/
theorem exists_of_refuseOverflow {overflows : Bool} {next : Unit → Lowering α}
    {table after : SymbolTable} {a : α}
    (h : (refuseOverflow overflows >>= next).outcome table = (.ok a, after)) :
    overflows = false ∧ (next ()).outcome table = (.ok a, after) := by
  cases overflows with
  | false => exact ⟨rfl, h⟩
  | true => cases h

theorem exists_of_inScope {action : Lowering α} {table after : SymbolTable} {a : α}
    (h : (inScope action).outcome table = (.ok a, after)) :
    ∃ inner, action.outcome table.enter = (.ok a, inner) ∧ after = inner.leave :=
  ⟨(action.outcome table.enter).2, Prod.ext (Prod.mk.inj h).1 rfl, (Prod.mk.inj h).2.symm⟩

/-- Every result of the action satisfies `P`. -/
def Yields (action : Lowering α) (P : α → Prop) : Prop :=
  ∀ table a after, action.outcome table = (.ok a, after) → P a

namespace Yields

theorem trivial (action : Lowering α) : Yields action fun _ => True := fun _ _ _ _ => True.intro

theorem mono {action : Lowering α} {P Q : α → Prop} (h : Yields action P)
    (hPQ : ∀ a, P a → Q a) : Yields action Q :=
  fun table a after hout => hPQ a (h table a after hout)

theorem pure {P : α → Prop} {a : α} (h : P a) : Yields (Pure.pure a) P := by
  intro table b after hout
  cases hout
  exact h

theorem throw {P : α → Prop} (failure : Failure) : Yields (MonadExcept.throw failure) P := by
  intro table a after hout
  cases hout

theorem bind {action : Lowering α} {next : α → Lowering β} {P : α → Prop} {Q : β → Prop}
    (h : Yields action P) (hnext : ∀ a, P a → Yields (next a) Q) : Yields (action >>= next) Q := by
  intro table b after hout
  obtain ⟨a, between, haction, hout⟩ := exists_of_bind hout
  exact hnext a (h table a between haction) between b after hout

theorem map {action : Lowering α} {f : α → β} {Q : β → Prop} (h : Yields action fun a => Q (f a)) :
    Yields (f <$> action) Q := h.bind fun _ ha => pure ha

theorem inScope {action : Lowering α} {P : α → Prop} (h : Yields action P) :
    Yields (Lowering.inScope action) P := by
  intro table a after hout
  obtain ⟨inner, haction, -⟩ := exists_of_inScope hout
  exact h table.enter a inner haction

end Yields

end MiniJava.Lowering
