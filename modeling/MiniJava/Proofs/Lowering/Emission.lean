import MiniJava.Proofs.Lowering.Emitter
import MiniJava.Proofs.Lowering.Yields
import MiniJava.Proofs.Target.Lines

/-!
# Emitters that follow lowerings

An emitter follows a lowering if it writes the lines of the result, or some lines and then fails
with the same error, and otherwise stays where it is. Actions that follow lowerings can be put
together in the ways in which lowerings are, and a context around such an action is gone behind it.
-/

namespace MiniJava

open Target (Line filled)
open Target.Stmt (allLines suite)

namespace Emitter

/-- The emitter where it stands, with the lines written and other declarations in scope. -/
def behind (emitter : Emitter) (lines : List Line) (table : SymbolTable) : Emitter :=
  { emitter.put lines with symbols := table }

theorem behind_nil (emitter : Emitter) (table : SymbolTable) :
    emitter.behind [] table = { emitter with symbols := table } := by
  simp [behind, put]

theorem behind_behind (emitter : Emitter) (front more : List Line) (table after : SymbolTable) :
    (emitter.behind front table).behind more after = emitter.behind (front ++ more) after := by
  simp only [behind, put, List.map_append, String.join_append, String.append_assoc]

theorem size_behind (emitter : Emitter) (lines : List Line) (table : SymbolTable) :
    (emitter.behind lines table).size =
      emitter.size + (String.join (lines.map Line.toText)).utf8ByteSize :=
  String.utf8ByteSize_append

theorem size_le_behind (emitter : Emitter) (lines : List Line) (table : SymbolTable) :
    emitter.size ≤ (emitter.behind lines table).size := by
  rw [size_behind]
  exact Nat.le_add_right ..

/-- Lines make a text longer. -/
theorem size_lt_behind_iff (emitter : Emitter) (lines : List Line) (table : SymbolTable) :
    emitter.size < (emitter.behind lines table).size ↔ lines ≠ [] := by
  rw [size_behind]
  cases lines with
  | nil => simp
  | cons first rest =>
      have hfirst := first.utf8ByteSize_toText_pos
      rw [List.map_cons, String.join_cons, String.utf8ByteSize_append]
      simp only [ne_eq, reduceCtorEq, not_false_eq_true, iff_true]
      omega

end Emitter

namespace Emitting

variable {α β γ δ : Type}

theorem outcome_bind (action : Emitting α) (next : α → Emitting β) (emitter : Emitter) :
    (action >>= next).outcome emitter =
      match action.outcome emitter with
      | (.ok a, inner) => (next a).outcome inner
      | (.error error, inner) => (.error error, inner) := by
  change (ExceptT.bindCont next (action.outcome emitter).1).run (action.outcome emitter).2 = _
  cases action.outcome emitter with
  | mk result inner => cases result <;> rfl

theorem outcome_emit (more : Nat → List Line) (emitter : Emitter) : (emit more).outcome emitter =
    (.ok (), emitter.behind (more emitter.level) emitter.symbols) := rfl

theorem outcome_lower (action : Place → Lowering α) (emitter : Emitter) :
    (lower action).outcome emitter = (((action emitter.place).outcome emitter.symbols).1,
      emitter.behind [] ((action emitter.place).outcome emitter.symbols).2) := by
  rw [Emitter.behind_nil]
  rfl

/-- The end of a suite, where `pass` is written if nothing has been. -/
theorem outcome_pass (emitter : Emitter) (more : List Line) (table : SymbolTable) :
    (if (emitter.behind more table).size = emitter.size then line "pass" else pure ()).outcome
      (emitter.behind more table) = (.ok (), emitter.behind (filled emitter.level more) table) := by
  have hsize := emitter.size_lt_behind_iff more table
  by_cases hnil : more = []
  · have hsame : (emitter.behind more table).size = emitter.size := by
      rw [Emitter.size_behind, hnil]
      rfl
    rw [if_pos hsame, line, outcome_emit, Emitter.behind_behind, hnil, filled, if_pos rfl]
    rfl
  · rw [if_neg (Nat.ne_of_gt (hsize.mpr hnil)), filled, if_neg hnil]
    rfl

/-- What an emitter comes to that has written `front` and follows a lowering. With a result it has
gone on to the end of the lines of the result, and with an error it has written some lines. All but
its text and the declarations in scope is what it was. -/
inductive Emitted (emitter : Emitter) (front : List Line) (lines : α → List Line) (result : α → β) :
    Except Failure α × SymbolTable → Except Failure β × Emitter → Prop where
  | done {a : α} {table : SymbolTable} {more : List Line} (h : lines a = front ++ more) :
    Emitted emitter front lines result (.ok a, table) (.ok (result a), emitter.behind more table)
  | failed {failure : Failure} {table : SymbolTable} {more : List Line} :
    Emitted emitter front lines result (.error failure, table)
      (.error failure, emitter.behind more table)

namespace Emitted

variable {emitter : Emitter} {front : List Line} {lines : γ → List Line} {result : γ → δ}

/-- What goes on behind lines that have been written. -/
theorem ahead {more : List Line} {table : SymbolTable}
    {low : Except Failure γ × SymbolTable} {emitted : Except Failure δ × Emitter}
    (h : Emitted (emitter.behind more table) (front ++ more) lines result low emitted) :
    Emitted emitter front lines result low emitted := by
  cases h with
  | failed =>
      rw [Emitter.behind_behind]
      exact .failed
  | done hlines =>
      rw [Emitter.behind_behind]
      exact .done (hlines.trans (List.append_assoc ..))

theorem bind {first : α → List Line} {middle : α → β} {lowering : Lowering α}
    {lowered : α → Lowering γ} {action : Emitting β} {next : β → Emitting δ}
    (h : Emitted emitter [] first middle (lowering.outcome emitter.symbols)
      (action.outcome emitter))
    (hnext : ∀ a table, lowering.outcome emitter.symbols = (.ok a, table) →
      Emitted (emitter.behind (first a) table) (front ++ first a) lines result
        ((lowered a).outcome table) ((next (middle a)).outcome (emitter.behind (first a) table))) :
    Emitted emitter front lines result ((lowering >>= lowered).outcome emitter.symbols)
      ((action >>= next).outcome emitter) := by
  rw [Lowering.outcome_bind, outcome_bind]
  generalize lowering.outcome emitter.symbols = low at h hnext ⊢
  generalize action.outcome emitter = emitted at h ⊢
  cases h with
  | failed => exact .failed
  | @done a table more hmore =>
      rw [List.nil_append] at hmore
      subst hmore
      exact (hnext a table rfl).ahead

/-- The last of several actions. -/
theorem last {last : α → List Line} {g : α → γ} {lowering : Lowering α}
    {emitted : Except Failure δ × Emitter}
    (h : Emitted emitter [] last (fun a => result (g a)) (lowering.outcome emitter.symbols) emitted)
    (hlines : ∀ a, lines (g a) = front ++ last a) :
    Emitted emitter front lines result
      ((lowering >>= fun a => pure (g a)).outcome emitter.symbols) emitted := by
  rw [Lowering.outcome_bind]
  generalize lowering.outcome emitter.symbols = low at h ⊢
  cases h with
  | failed => exact .failed
  | @done a table more hmore =>
      change Emitted emitter front lines result (.ok (g a), table) _
      exact .done (by rw [hlines, hmore, List.nil_append])

/-- A context that is left again adds no lines of its own. -/
theorem between {enter leave : Emitter → Emitter} {low : Except Failure γ × SymbolTable}
    {action : Emitting δ}
    (h : Emitted (enter emitter) [] lines result low (action.outcome (enter emitter)))
    (back : SymbolTable → SymbolTable)
    (hleave : ∀ more table, leave ((enter emitter).behind more table) =
      emitter.behind more (back table)) :
    Emitted emitter [] lines result (low.1, back low.2)
      ((Emitting.between enter leave action).outcome emitter) := by
  change Emitted _ _ _ _ _ ((action.outcome (enter emitter)).1, leave _)
  generalize action.outcome (enter emitter) = emitted at h ⊢
  cases h with
  | failed =>
      rw [hleave]
      exact .failed
  | done hlines =>
      rw [hleave]
      exact .done hlines

end Emitted

/-- In the place and on the level, behind `front`, the action follows the lowering. -/
def Emits (place : Place) (level : Nat) (front : List Line) (lines : α → List Line)
    (result : α → β) (lowering : Lowering α) (action : Emitting β) : Prop :=
  ∀ emitter : Emitter, emitter.place = place → emitter.level = level →
    Emitted emitter front lines result (lowering.outcome emitter.symbols) (action.outcome emitter)

/-- The action writes the code that the lowering comes to. -/
abbrev EmitsCode (place : Place) (level : Nat) (lowering : Lowering (List Target.Stmt))
    (action : Emitting Unit) : Prop :=
  Emits place level [] (allLines level) (fun _ => ()) lowering action

namespace Emits

variable {place : Place} {level : Nat} {front : List Line} {first : α → List Line}
  {lines : γ → List Line} {middle : α → β} {result : γ → δ} {lowering : Lowering α}
  {lowered : α → Lowering γ} {action : Emitting β} {next : β → Emitting δ}

theorem pure {c : γ} (h : lines c = front) :
    Emits place level front lines result (Pure.pure c) (Pure.pure (result c)) := by
  intro emitter _ _
  have hdone : Emitted emitter front lines result (.ok c, emitter.symbols)
      (.ok (result c), emitter.behind [] emitter.symbols) := .done (by rw [h, List.append_nil])
  rw [Emitter.behind_nil] at hdone
  exact hdone

theorem bind_yields {P : α → Prop} (h : Emits place level [] first middle lowering action)
    (hyields : lowering.Yields P)
    (hnext : ∀ a, P a → Emits place level (front ++ first a) lines result (lowered a)
      (next (middle a))) :
    Emits place level front lines result (lowering >>= lowered) (action >>= next) :=
  fun emitter hplace hlevel => (h emitter hplace hlevel).bind fun a table ha =>
    hnext a (hyields _ a table ha) _ hplace hlevel

theorem bind (h : Emits place level [] first middle lowering action)
    (hnext : ∀ a, Emits place level (front ++ first a) lines result (lowered a)
      (next (middle a))) :
    Emits place level front lines result (lowering >>= lowered) (action >>= next) :=
  h.bind_yields (.trivial _) fun a _ => hnext a

/-- The lines of results that have a property, behind lines that have been written. -/
theorem congr {other : α → List Line} {P : α → Prop}
    (h : Emits place level [] first middle lowering action) (hyields : lowering.Yields P)
    (hlines : ∀ a, P a → other a = front ++ first a) :
    Emits place level front other middle lowering action := by
  rw [← bind_pure lowering, ← bind_pure action]
  exact h.bind_yields hyields fun a ha => pure (hlines a ha)

theorem behind {other : α → List Line} (h : Emits place level [] first middle lowering action)
    (hlines : ∀ a, other a = front ++ first a) :
    Emits place level front other middle lowering action :=
  h.congr (.trivial _) fun a _ => hlines a

/-- The last of several actions. -/
theorem last {g : α → γ} {action : Emitting δ}
    (h : Emits place level [] first (fun a => result (g a)) lowering action)
    (hlines : ∀ a, lines (g a) = front ++ first a) :
    Emits place level front lines result (lowering >>= fun a => Pure.pure (g a)) action :=
  fun emitter hplace hlevel => (h emitter hplace hlevel).last hlines

/-- The last of several actions, behind which there is one statement. -/
theorem single {g : α → Target.Stmt} {action : Emitting Unit}
    (h : Emits place level [] first (fun _ => ()) lowering action)
    (hlines : ∀ a, (g a).lines level = front ++ first a) :
    Emits place level front (allLines level) (fun _ => ())
      (lowering >>= fun a => Pure.pure [g a]) action :=
  h.last fun a => (Target.Stmt.allLines_single level (g a)).trans (hlines a)

/-- An action that follows no lowering. -/
theorem const {a : α} {c : γ} {action : Emitting Unit}
    (h : Emits place level [] first (fun _ => ()) (Pure.pure a) action)
    (hlines : lines c = front ++ first a) :
    Emits place level front lines (fun _ => ()) (Pure.pure c) action := by
  rw [← bind_pure action]
  change Emits place level front lines _ (Pure.pure a >>= fun _ => Pure.pure c) _
  refine h.bind_yields (.pure rfl) fun b hb => pure ?_
  rw [hlines, hb]

theorem lower (action : Place → Lowering α) :
    Emits place level [] (fun _ => []) id (action place) (lower action) := by
  intro emitter hplace _
  subst hplace
  rw [outcome_lower]
  cases (action emitter.place).outcome emitter.symbols with
  | mk result table =>
      cases result with
      | error error => exact .failed
      | ok a => exact .done rfl

theorem value (e : Expr) : Emits place level [] (fun _ => []) id (Lowering.value place e)
    (Emitting.value e) := lower (Lowering.value · e)

/-- Lines that end what a result stands for. -/
theorem emit {more : Nat → List Line} {c : γ} (h : lines c = front ++ more level) :
    Emits place level front lines (fun _ => ()) (Pure.pure c) (emit more) := by
  intro emitter _ hlevel
  rw [outcome_emit, hlevel]
  exact .done h

/-- Lines in front of what else is written. -/
theorem emit_bind {more : Nat → List Line} {lowering : Lowering γ} {next : Unit → Emitting δ}
    (h : Emits place level (front ++ more level) lines result lowering (next ())) :
    Emits place level front lines result lowering (Emitting.emit more >>= next) := by
  intro emitter hplace hlevel
  rw [outcome_bind, outcome_emit, hlevel]
  exact (h (emitter.behind (more level) emitter.symbols) hplace hlevel).ahead

theorem write (action : Place → Lowering (List Target.Stmt)) :
    EmitsCode place level (action place) (Emitting.lower action >>= Emitting.write) := by
  rw [← bind_pure (action place)]
  exact (lower action).bind fun _ => emit rfl

theorem inScope (h : Emits place level [] first middle lowering action) :
    Emits place level [] first middle (Lowering.inScope lowering) (inScope action) :=
  fun emitter hplace hlevel =>
    (h { emitter with symbols := emitter.symbols.enter } hplace hlevel).between
      SymbolTable.leave fun _ _ => rfl

theorem deeper (h : Emits place (level + 1) [] first middle lowering action) :
    Emits place level [] first middle lowering (deeper action) :=
  fun emitter hplace hlevel =>
    (h { emitter with level := emitter.level + 1 } hplace (congrArg (· + 1) hlevel)).between
      id fun _ _ => rfl

theorem inMethod (kind : Option MethodKind)
    (h : Emits { place with method := kind } level [] first middle lowering action) :
    Emits place level [] first middle lowering (inMethod kind action) := by
  intro emitter hplace hlevel
  subst hplace
  -- the kind that is put back is read from the emitter first
  change Emitted _ _ _ _ _ ((between (fun emitter => { emitter with method := kind })
    (fun inner => { inner with method := emitter.method }) action).outcome emitter)
  exact (h { emitter with method := kind } rfl hlevel).between id fun _ _ => rfl

/-- The number of the innermost scope is found in the emitter as in the table of the lowering. -/
theorem inClass (enclosing : Option EnclosingClass) (name : String) {lowering : Nat → Lowering α}
    (h : ∀ scope, Emits ⟨some ⟨name, scope⟩, none⟩ level [] first middle (lowering scope) action) :
    Emits ⟨enclosing, none⟩ level [] first middle (do lowering ((← get).depth - 1))
      (inClass name action) := by
  intro emitter hplace hlevel
  have hnone : emitter.method = none := congrArg Place.method hplace
  have hinside : Place.mk (some ⟨name, emitter.symbols.depth - 1⟩) emitter.method =
      ⟨some ⟨name, emitter.symbols.depth - 1⟩, none⟩ := by rw [hnone]
  exact (h _ { emitter with
    classes := ⟨name, emitter.symbols.depth - 1⟩ :: emitter.classes } hinside hlevel).between id
      fun _ _ => rfl

theorem orPass {action : Emitting Unit}
    (h : Emits place level [] first (fun _ => ()) lowering action) :
    Emits place level [] (fun a => filled level (first a)) (fun _ => ()) lowering
      (orPass action) := by
  intro emitter hplace hlevel
  have hinner := h emitter hplace hlevel
  change Emitted _ _ _ _ _ ((action >>= fun _ => (do
    if (← get).size = emitter.size then line "pass" : Emitting Unit)).outcome emitter)
  rw [outcome_bind]
  generalize lowering.outcome _ = low at hinner ⊢
  generalize action.outcome _ = emitted at hinner ⊢
  cases hinner with
  | failed => exact .failed
  | @done a table more hmore =>
      change Emitted _ _ _ _ _ (Emitting.outcome (if _ then _ else _) (emitter.behind more table))
      rw [outcome_pass]
      exact .done (by rw [hmore, hlevel]; rfl)

/-- A clause has the lines of a header and its suite. -/
theorem clause (header : String) {lowering : Lowering (List Target.Stmt)} {body : Emitting Unit}
    (h : EmitsCode place (level + 1) lowering body) :
    Emits place level [] (fun out => ⟨level, header⟩ :: suite (level + 1) out) (fun _ => ())
      (Lowering.inScope lowering) (clause header body) := by
  simp only [Target.Stmt.suite_eq]
  exact emit_bind (h.orPass.inScope.deeper.behind fun _ => rfl)

end Emits

end Emitting

end MiniJava
