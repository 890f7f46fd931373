import MiniJava.Lowering.RangeLoop
import MiniJava.Proofs.Evaluation.Run
import MiniJava.Proofs.Evaluation.Value
import MiniJava.Syntax.Program
import Mathlib.Data.List.Forall2

/-!
# Runs of statements

A store holds the variables in scope, the newest first; a block forgets the variables declared in
it. Declarations without a value, `do` loops, switches, `try`, `return`, `break`, `continue`,
classes and print calls other than those of whole lines are left out: they fail. A statement changes
no variable but those it assigns.
-/

namespace MiniJava

abbrev Store := List (String × Value)

namespace Store

def read (store : Store) (name : String) : Option Value := store.lookup name

/-- Changes the newest variable of this name. -/
def assign (name : String) (value : Value) : Store → Option Store
  | [] => none
  | (used, old) :: rest =>
    if used = name then some ((used, value) :: rest)
    else (assign name value rest).map ((used, old) :: ·)

/-- Forgets the newest variables until this many are left. -/
def leave (size : Nat) (store : Store) : Store := store.drop (store.length - size)

end Store

namespace Expr

/-- The value of a condition. -/
def test (e : Expr) (store : Store) : Option Bool :=
  match e.value? store.read with
  | some (.truth b) => some b
  | _ => none

/-- What an expression statement makes of the variables. -/
def perform (store : Store) : Expr → Option Store
  | .assign target none value _ => do store.assign target (← value.value? store.read)
  | .assign target (some op) value _ => do
    let old ← store.read target
    store.assign target (← op.result? .truncated old (← value.value? store.read))
  | .step target op _ _ => do
    let old ← store.read target
    let change := match op with
      | .increment => BinaryOp.add
      | .decrement => BinaryOp.sub
    store.assign target (← change.result? .truncated old (.int 1))
  | e => do
    let _ ← e.value? store.read
    return store

end Expr

/-- What the updates of a loop make of the variables, one behind another. -/
def performAll (store : Store) : List Expr → Option Store
  | [] => some store
  | first :: rest => do performAll (← first.perform store) rest

def loopTest (e : Option Expr) (store : Store) : Option Bool :=
  match e with
  | none => some true
  | some e => e.test store

namespace Stmt

open Run

def showArgs (kind : PrintKind) (args : List Expr) (store : Store) : Run Store :=
  match kind, args with
  | .println, [e] => given (e.value? store.read) fun value => prints value.shown store
  | _, _ => failed

def roundOf (update : List Expr) (body : Store → Run Store) (store : Store) : Run Store :=
  (body store).andThen fun inner => given (performAll inner update) done

mutual

def run (rounds : Nat) : Stmt → Store → Run Store
  | .declare decl, store =>
    given (decl.init.bind fun init => init.value? store.read) fun value =>
      done ((decl.name, value) :: store)
  | .expression e, store => given (e.perform store) done
  | .block body, store =>
    (runAll rounds body store).andThen fun inner => done (inner.leave store.length)
  | .ifElse e thenBranch none, store =>
    choose (e.test store) (thenBranch.run rounds store) (done store)
  | .ifElse e thenBranch (some elseBranch), store =>
    choose (e.test store) (thenBranch.run rounds store) (elseBranch.run rounds store)
  | .whileLoop e body, store => loop e.test (body.run rounds) rounds store
  | .forLoop none e update body, store =>
    loop (loopTest e) (roundOf update (body.run rounds)) rounds store
  | .forLoop (some init) e update body, store =>
    ((init.run rounds store).andThen
      (loop (loopTest e) (roundOf update (body.run rounds)) rounds)).andThen
        fun inner => done (inner.leave store.length)
  | .print kind args _, store => showArgs kind args store
  | .empty, store => done store
  | .doWhile .., _ | .switch .., _ | .tryCatch .., _ | .returns .., _ | .breaks, _
  | .continues, _ => failed

def runAll (rounds : Nat) : List Stmt → Store → Run Store
  | [], store => done store
  | first :: rest, store => (first.run rounds store).andThen (runAll rounds rest)

end

end Stmt

namespace Store

abbrev SameBut (names : List String) : Store → Store → Prop :=
  List.Forall₂ fun cell other => cell.1 = other.1 ∧ (cell.1 ∉ names → cell.2 = other.2)

theorem SameBut.read {names : List String} {store other : Store} (h : SameBut names store other)
    {name : String} (hname : name ∉ names) : other.read name = store.read name := by
  induction h with
  | nil => rfl
  | @cons cell other store rest hcell _ ih =>
      obtain ⟨hname', hvalue⟩ := hcell
      rw [Store.read, Store.read, List.lookup_cons, List.lookup_cons, ← hname']
      cases heq : name == cell.1 with
      | false => exact ih
      | true =>
          have hcell : cell.1 ∉ names := fun hmem => hname (by rwa [← beq_iff_eq.mp heq] at hmem)
          rw [hvalue hcell]

theorem SameBut.refl (names : List String) (store : Store) : SameBut names store store :=
  List.forall₂_same.mpr fun _ _ => ⟨rfl, fun _ => rfl⟩

theorem SameBut.trans {names : List String} {store between other : Store}
    (h : SameBut names store between) (hbehind : SameBut names between other) :
    SameBut names store other := by
  induction h generalizing other with
  | nil => exact hbehind
  | cons hcell _ ih =>
      cases hbehind with
      | cons hcell' hrest =>
          refine .cons ⟨hcell.1.trans hcell'.1, fun hname => ?_⟩ (ih hrest)
          exact (hcell.2 hname).trans (hcell'.2 (hcell.1 ▸ hname))

theorem SameBut.of_assign {names : List String} {target : String} {value : Value}
    {store after : Store} (h : store.assign target value = some after) (hmem : target ∈ names) :
    SameBut names store after := by
  induction store generalizing after with
  | nil => cases h
  | cons cell rest ih =>
      rw [assign] at h
      split at h
      · next hname =>
          cases h
          exact .cons ⟨rfl, fun hnot => absurd (hname ▸ hmem) hnot⟩ (SameBut.refl names rest)
      · obtain ⟨more, hmore, rfl⟩ := Option.map_eq_some_iff.mp h
        exact .cons ⟨rfl, fun _ => rfl⟩ (ih hmore)

/-- The variables of the store are still there, below newer ones, and no other than those with one
of the names has changed. -/
def Keeps (names : List String) (store after : Store) : Prop :=
  ∃ newer older, after = newer ++ older ∧ SameBut names store older

namespace Keeps

variable {names more : List String} {store between after : Store}

theorem of_same (h : SameBut names store after) : Keeps names store after := ⟨[], after, rfl, h⟩

theorem refl (names : List String) (store : Store) : Keeps names store store :=
  of_same (.refl names store)

theorem mono (h : Keeps names store after) (hsub : names ⊆ more) : Keeps more store after := by
  obtain ⟨newer, older, hafter, hsame⟩ := h
  refine ⟨newer, older, hafter, hsame.imp fun cell other hcell => ⟨hcell.1, fun hname => ?_⟩⟩
  exact hcell.2 fun hmem => hname (hsub hmem)

theorem trans (h : Keeps names store between) (hbehind : Keeps names between after) :
    Keeps names store after := by
  obtain ⟨newer, older, rfl, hsame⟩ := h
  obtain ⟨newer', older', rfl, hsame'⟩ := hbehind
  have hdrop := List.forall₂_drop newer.length hsame'
  rw [List.drop_left] at hdrop
  refine ⟨newer' ++ older'.take newer.length, older'.drop newer.length, ?_, hsame.trans hdrop⟩
  rw [List.append_assoc, List.take_append_drop]

theorem push (names : List String) (name : String) (value : Value) (store : Store) :
    Keeps names store ((name, value) :: store) :=
  ⟨[(name, value)], store, rfl, .refl names store⟩

theorem leave (h : Keeps names store after) : Keeps names store (after.leave store.length) := by
  obtain ⟨newer, older, rfl, hsame⟩ := h
  refine ⟨[], older, ?_, hsame⟩
  simp [Store.leave, hsame.length_eq]

/-- Where no variable is new, those that are not assigned hold what they held. -/
theorem read (h : Keeps names store after) (hsize : after.length = store.length) {name : String}
    (hname : name ∉ names) : after.read name = store.read name := by
  obtain ⟨newer, older, rfl, hsame⟩ := h
  have hlength := hsame.length_eq
  rw [List.length_append] at hsize
  obtain rfl : newer = [] := List.eq_nil_of_length_eq_zero (by omega)
  exact hsame.read hname

end Keeps

end Store

open Store (Keeps)

theorem Expr.perform_keeps {e : Expr} {store after : Store} (h : e.perform store = some after) :
    Keeps e.assigned store after := by
  cases e with
  | assign target op value position =>
      have hmem : target ∈ (Expr.assign target op value position).assigned := List.mem_cons_self
      cases op with
      | none =>
          obtain ⟨v, _, hassign⟩ := Option.bind_eq_some_iff.mp h
          exact .of_same (.of_assign hassign hmem)
      | some op =>
          obtain ⟨old, _, hrest⟩ := Option.bind_eq_some_iff.mp h
          obtain ⟨v, _, hrest⟩ := Option.bind_eq_some_iff.mp hrest
          obtain ⟨new, _, hassign⟩ := Option.bind_eq_some_iff.mp hrest
          exact .of_same (.of_assign hassign hmem)
  | step target op form position =>
      obtain ⟨old, _, hrest⟩ := Option.bind_eq_some_iff.mp h
      obtain ⟨new, _, hassign⟩ := Option.bind_eq_some_iff.mp hrest
      exact .of_same (.of_assign hassign List.mem_cons_self)
  | literal _ _ | name _ _ | binary _ _ _ | unary _ _ =>
      obtain ⟨v, _, hsame⟩ := Option.bind_eq_some_iff.mp h
      cases hsame
      exact .refl _ _

theorem performAll_keeps {list : List Expr} {store after : Store}
    (h : performAll store list = some after) : Keeps (assignedIn list) store after := by
  induction list generalizing store with
  | nil =>
      cases h
      exact .refl _ _
  | cons first rest ih =>
      obtain ⟨between, hfirst, hrest⟩ := Option.bind_eq_some_iff.mp h
      rw [assignedIn, List.flatMap_cons]
      exact ((Expr.perform_keeps hfirst).mono (List.subset_append_left _ _)).trans
        ((ih hrest).mono (List.subset_append_right _ _))

namespace Stmt

open Run

def ChangesOnly (names : List String) (store : Store) (run : Run Store) : Prop :=
  run.Leaves (Keeps names store)

namespace ChangesOnly

variable {names more : List String} {store between : Store} {run : Run Store}

theorem mono (h : ChangesOnly names store run) (hsub : names ⊆ more) :
    ChangesOnly more store run := Leaves.mono h fun _ hkeeps => hkeeps.mono hsub

theorem behind (h : Keeps names store between) (hrun : ChangesOnly names between run) :
    ChangesOnly names store run := Leaves.mono hrun fun _ hbehind => h.trans hbehind

theorem andThen (h : ChangesOnly names store run) {next : Store → Run Store}
    (hnext : ∀ between, ChangesOnly names between (next between)) :
    ChangesOnly names store (run.andThen next) :=
  Leaves.andThen h fun between hbetween => behind hbetween (hnext between)

theorem loop {test : Store → Option Bool} {round : Store → Run Store}
    (h : ∀ store, ChangesOnly names store (round store)) (rounds : Nat) (store : Store) :
    ChangesOnly names store (Run.loop test round rounds store) :=
  Leaves.loop (fun between hbetween => behind hbetween (h between)) rounds (.refl names store)

theorem round {update : List Expr} {body : Store → Run Store}
    (h : ∀ store, ChangesOnly names store (body store)) (hupdate : assignedIn update ⊆ names)
    (store : Store) : ChangesOnly names store (roundOf update body store) :=
  (h store).andThen fun _ => .given fun _ hafter =>
    .of_done ((performAll_keeps hafter).mono hupdate)

theorem leave (h : ChangesOnly names store run) :
    ChangesOnly names store (run.andThen fun inner => done (inner.leave store.length)) :=
  Leaves.andThen h fun _ hinner => .of_done hinner.leave

end ChangesOnly

mutual

/-- A statement changes no variables but those that it assigns. -/
theorem run_changesOnly (rounds : Nat) : (s : Stmt) → ∀ store,
    ChangesOnly s.assigned store (s.run rounds store)
  | .declare decl, store => by
      rw [run]
      exact .given fun value _ => .of_done (.push _ _ _ _)
  | .expression e, store => by
      rw [run, assigned]
      exact .given fun after hafter => .of_done (Expr.perform_keeps hafter)
  | .block body, store => by
      rw [run, assigned]
      exact (runAll_changesOnly rounds body store).leave
  | .ifElse e thenBranch none, store => by
      have hthen := run_changesOnly rounds thenBranch store
      rw [run, assigned]
      exact .choose (hthen.mono (List.subset_append_right _ _)) (.of_done (.refl _ _))
  | .ifElse e thenBranch (some elseBranch), store => by
      have hthen := run_changesOnly rounds thenBranch store
      have helse := run_changesOnly rounds elseBranch store
      rw [run, assigned]
      exact .choose (hthen.mono (by simp)) (helse.mono (List.subset_append_right _ _))
  | .whileLoop e body, store => by
      rw [run, assigned]
      exact .loop (fun store => (run_changesOnly rounds body store).mono
        (List.subset_append_right _ _)) rounds store
  | .forLoop none e update body, store => by
      rw [run, assigned]
      refine .loop (.round (fun store => ?_) (by simp)) rounds store
      exact (run_changesOnly rounds body store).mono (List.subset_append_right _ _)
  | .forLoop (some init) e update body, store => by
      have hinit := run_changesOnly rounds init store
      rw [run, assigned]
      refine ((hinit.mono (by simp)).andThen (.loop (.round (fun store => ?_) ?_) rounds)).leave
      · exact (run_changesOnly rounds body store).mono (List.subset_append_right _ _)
      · intro name hname
        simp [hname]
  | .print kind args position, store => by
      rw [run]
      unfold showArgs
      split
      · exact .given fun value _ => .of_prints (.refl _ _)
      · exact .of_failed
  | .empty, store => by
      rw [run]
      exact .of_done (.refl _ _)
  | .doWhile _ _, _ | .switch _ _ _, _ | .tryCatch _ _ _, _ | .returns _ _, _ | .breaks, _
  | .continues, _ => by
      rw [run]
      exact .of_failed

theorem runAll_changesOnly (rounds : Nat) : (body : List Stmt) → ∀ store,
    ChangesOnly (allAssigned body) store (runAll rounds body store)
  | [], store => by
      rw [runAll]
      exact .of_done (.refl _ _)
  | first :: rest, store => by
      have hfirst := run_changesOnly rounds first store
      rw [runAll, allAssigned]
      exact (hfirst.mono (List.subset_append_left _ _)).andThen fun between =>
        (runAll_changesOnly rounds rest between).mono (List.subset_append_right _ _)

end

end Stmt

end MiniJava
