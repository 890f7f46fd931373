import MiniJava.Proofs.Evaluation.Statement
import MiniJava.Proofs.Python.Run

/-!
# Executions

An execution is what a program does under every bound on the rounds of its loops. Under a larger
bound it goes on where it has been cut under a smaller one, so an execution that comes to an end does
so behind the same lines under every bound that is large enough.
-/

namespace MiniJava

namespace Run

variable {σ τ α : Type}

/-- The first run is the second one, or it has been cut on its way. -/
inductive Upto : Run σ → Run σ → Prop
  | same (run : Run σ) : Upto run run
  | cut {printed : List String} {longer : Run σ} :
      printed <+: longer.printed → Upto ⟨printed, .cut⟩ longer

theorem printed_andThen (run : Run σ) (next : σ → Run τ) :
    run.printed <+: (run.andThen next).printed := by
  cases run with
  | mk printed ending =>
      cases ending with
      | done state => exact List.prefix_append _ _
      | cut => exact List.prefix_refl _
      | failed => exact List.prefix_refl _

namespace Upto

variable {run longer : Run σ}

theorem printed (h : Upto run longer) : run.printed <+: longer.printed := by
  cases h with
  | same => exact List.prefix_refl _
  | cut h => exact h

/-- A run that has not been cut does not change. -/
theorem eq_of_not_cut (h : Upto run longer) (hending : run.ending ≠ .cut) : run = longer := by
  cases h with
  | same => rfl
  | cut => exact absurd rfl hending

theorem behind (h : Upto run longer) (printed : List String) :
    Upto ⟨printed ++ run.printed, run.ending⟩ ⟨printed ++ longer.printed, longer.ending⟩ := by
  cases h with
  | same => exact .same _
  | cut h => exact .cut ((List.prefix_append_right_inj printed).mpr h)

theorem andThen (h : Upto run longer) {next more : σ → Run τ}
    (hnext : ∀ state, Upto (next state) (more state)) :
    Upto (run.andThen next) (longer.andThen more) := by
  cases h with
  | same =>
      cases run with
      | mk printed ending =>
          cases ending with
          | done state => exact (hnext state).behind printed
          | cut => exact .same _
          | failed => exact .same _
  | cut h => exact .cut (h.trans (printed_andThen longer more))

theorem given {value : Option α} {next more : α → Run σ} (h : ∀ a, Upto (next a) (more a)) :
    Upto (Run.given value next) (Run.given value more) := by
  cases value with
  | some a => exact h a
  | none => exact .same _

theorem choose {test : Option Bool} {yes no yes' no' : Run σ} (hyes : Upto yes yes')
    (hno : Upto no no') : Upto (Run.choose test yes no) (Run.choose test yes' no') := by
  refine given fun b => ?_
  cases b with
  | true => exact hyes
  | false => exact hno

theorem of_cut (longer : Run σ) : Upto Run.cut longer := .cut List.nil_prefix

/-- A loop that may take more rounds goes on where it has been cut. -/
theorem loop {test : σ → Option Bool} {round round' : σ → Run σ}
    (hround : ∀ state, Upto (round state) (round' state)) {rounds more : Nat} (hle : rounds ≤ more)
    (state : σ) : Upto (Run.loop test round rounds state) (Run.loop test round' more state) := by
  induction rounds generalizing more state with
  | zero =>
      cases more with
      | zero => exact .same _
      | succ more => exact choose (of_cut _) (.same _)
  | succ rounds ih =>
      cases more with
      | zero => exact absurd hle (Nat.not_succ_le_zero rounds)
      | succ more =>
          exact choose ((hround state).andThen (ih (Nat.le_of_succ_le_succ hle))) (.same _)

theorem count {round round' : Int → σ → Run σ} {stop step : Int}
    (hround : ∀ i state, Upto (round i state) (round' i state)) {rounds more : Nat}
    (hle : rounds ≤ more) (i : Int) (state : σ) :
    Upto (Run.count round stop step rounds i state) (Run.count round' stop step more i state) := by
  induction rounds generalizing more i state with
  | zero =>
      cases more with
      | zero => exact .same _
      | succ more =>
          rw [Run.count, Run.count]
          split
          · exact of_cut _
          · exact .same _
  | succ rounds ih =>
      cases more with
      | zero => exact absurd hle (Nat.not_succ_le_zero rounds)
      | succ more =>
          rw [Run.count, Run.count]
          split
          · exact (hround i state).andThen (ih (Nat.le_of_succ_le_succ hle) (i + step))
          · exact .same _

end Upto

end Run

open Run

namespace Stmt

theorem upto_round {update : List Expr} {body body' : Store → Run Store}
    (h : ∀ store, Upto (body store) (body' store)) (store : Store) :
    Upto (roundOf update body store) (roundOf update body' store) :=
  (h store).andThen fun _ => .same _

variable {rounds more : Nat}

mutual

theorem upto_run (hle : rounds ≤ more) : (s : Stmt) → ∀ store,
    Upto (s.run rounds store) (s.run more store)
  | .block body, store => by
      rw [run, run]
      exact (upto_runAll hle body store).andThen fun _ => .same _
  | .ifElse e thenBranch none, store => by
      rw [run, run]
      exact .choose (upto_run hle thenBranch store) (.same _)
  | .ifElse e thenBranch (some elseBranch), store => by
      rw [run, run]
      exact .choose (upto_run hle thenBranch store) (upto_run hle elseBranch store)
  | .whileLoop e body, store => by
      rw [run, run]
      exact .loop (upto_run hle body) hle store
  | .forLoop none e update body, store => by
      rw [run, run]
      exact .loop (upto_round (upto_run hle body)) hle store
  | .forLoop (some init) e update body, store => by
      rw [run, run]
      exact ((upto_run hle init store).andThen
        (.loop (upto_round (upto_run hle body)) hle)).andThen fun _ => .same _
  | .declare _, _ | .expression _, _ | .print _ _ _, _ | .empty, _ | .doWhile _ _, _
  | .switch _ _ _, _ | .tryCatch _ _ _, _ | .returns _ _, _ | .breaks, _ | .continues, _ => by
      rw [run, run]
      exact .same _

theorem upto_runAll (hle : rounds ≤ more) : (body : List Stmt) → ∀ store,
    Upto (runAll rounds body store) (runAll more body store)
  | [], store => by
      rw [runAll, runAll]
      exact .same _
  | first :: rest, store => by
      rw [runAll, runAll]
      exact (upto_run hle first store).andThen (upto_runAll hle rest)

end

end Stmt

namespace Python

variable {rounds more : Nat}

mutual

theorem Code.upto_run (hle : rounds ≤ more) : (statement : Code) → ∀ vars,
    Upto (statement.run rounds vars) (statement.run more vars)
  | .ifElse condition body other, vars => by
      rw [Code.run, Code.run]
      exact .choose (upto_runAll hle body vars) (upto_runAll hle other vars)
  | .whileLoop condition body, vars => by
      rw [Code.run, Code.run]
      exact .loop (upto_runAll hle body) hle vars
  | .forRange counter start stop step body, vars => by
      rw [Code.run, Code.run]
      exact .given fun range => .count (fun i vars => upto_runAll hle body _) hle range.start vars
  | .pass, _ | .assign _ _, _ | .update _ _ _, _ | .print _, _ => by
      rw [Code.run, Code.run]
      exact .same _

theorem upto_runAll (hle : rounds ≤ more) : (code : List Code) → ∀ vars,
    Upto (runAll rounds code vars) (runAll more code vars)
  | [], vars => by
      rw [runAll, runAll]
      exact .same _
  | first :: rest, vars => by
      rw [runAll, runAll]
      exact (first.upto_run hle vars).andThen (upto_runAll hle rest)

end

end Python

/-- The runs under all bounds on the rounds of a loop. -/
structure Execution (σ : Type) where
  run : Nat → Run σ
  upto : ∀ {rounds more : Nat}, rounds ≤ more → Upto (run rounds) (run more)

namespace Execution

variable {σ τ : Type} {execution : Execution σ} {other : Execution τ} {lines more : List String}

def Prints (execution : Execution σ) (lines : List String) : Prop :=
  ∃ rounds, lines <+: (execution.run rounds).printed

/-- The execution comes to an end by itself, and these lines are what it has printed. -/
def Halts (execution : Execution σ) (lines : List String) : Prop :=
  ∃ rounds, (execution.run rounds).printed = lines ∧ (execution.run rounds).ending.isDone = true

/-- The execution comes upon an operation without a value. -/
def Fails (execution : Execution σ) : Prop := ∃ rounds, (execution.run rounds).ending = .failed

def haltsWithin (execution : Execution σ) (rounds : Nat) (lines : List String) : Bool :=
  (execution.run rounds).printed = lines && (execution.run rounds).ending.isDone

theorem halts_of_within {rounds : Nat} (h : execution.haltsWithin rounds lines = true) :
    execution.Halts lines := by
  rw [haltsWithin, Bool.and_eq_true, decide_eq_true_eq] at h
  exact ⟨rounds, h⟩

/-- Behind its end an execution prints nothing, whatever the bound. -/
theorem Halts.prints_iff (h : execution.Halts lines) : execution.Prints more ↔ more <+: lines := by
  obtain ⟨rounds, rfl, hdone⟩ := h
  constructor
  · rintro ⟨rounds', hmore⟩
    have hsame := (execution.upto (Nat.le_max_left rounds rounds')).eq_of_not_cut
      (Ending.ne_cut_of_isDone hdone)
    rw [hsame]
    exact hmore.trans (execution.upto (Nat.le_max_right rounds rounds')).printed
  · exact fun hmore => ⟨rounds, hmore⟩

theorem Halts.unique (h : execution.Halts lines) (hmore : execution.Halts more) : lines = more := by
  have hleft := hmore.prints_iff.mp (h.prints_iff.mpr (List.prefix_refl lines))
  have hright := h.prints_iff.mp (hmore.prints_iff.mpr (List.prefix_refl more))
  exact hleft.eq_of_length_le hright.length_le

/-- Neither execution fails, both print the same lines, and one comes to an end if and only if the
other one does. -/
structure Equivalent (execution : Execution σ) (other : Execution τ) : Prop where
  safe : ¬ execution.Fails ∧ ¬ other.Fails
  prints : ∀ lines, execution.Prints lines ↔ other.Prints lines
  halts : ∀ lines, execution.Halts lines ↔ other.Halts lines

section Alike

variable {R : σ → τ → Prop} (h : ∀ rounds, Alike R (execution.run rounds) (other.run rounds))

include h

theorem Prints.of_alike (hprints : execution.Prints lines) : other.Prints lines := by
  obtain ⟨rounds, hlines⟩ := hprints
  exact ⟨rounds, (h rounds).printed ▸ hlines⟩

theorem Halts.of_alike (hhalts : execution.Halts lines) : other.Halts lines := by
  obtain ⟨rounds, hprinted, hdone⟩ := hhalts
  exact ⟨rounds, (h rounds).printed ▸ hprinted, (h rounds).ending.isDone_eq ▸ hdone⟩

theorem not_fails_of_alike : ¬ execution.Fails := by
  rintro ⟨rounds, hfailed⟩
  have hending := (h rounds).ending
  rw [hfailed] at hending
  cases hending

theorem Equivalent.of_alike : execution.Equivalent other := by
  have hsymm (rounds : Nat) := (h rounds).symm
  exact ⟨⟨not_fails_of_alike h, not_fails_of_alike hsymm⟩,
    fun lines => ⟨Prints.of_alike h, Prints.of_alike hsymm⟩,
    fun lines => ⟨Halts.of_alike h, Halts.of_alike hsymm⟩⟩

end Alike

end Execution

end MiniJava
