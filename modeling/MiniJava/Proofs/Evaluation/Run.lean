import Mathlib.Data.List.Basic

/-!
# Runs

A run prints lines and ends: behind its last statement, at a loop that has taken all the rounds it
may take, or at an operation without a value. A program is run with a bound on the rounds of each
loop, so that every run ends. It comes to an end by itself if it is done under some bound, and
otherwise the lines that it prints are those it prints under larger and larger bounds.
-/

namespace MiniJava

inductive Ending (σ : Type) where
  | done (state : σ)
  | cut
  | failed
deriving DecidableEq

def Ending.isDone {σ : Type} : Ending σ → Bool
  | .done _ => true
  | .cut | .failed => false

theorem Ending.ne_cut_of_isDone {σ : Type} {ending : Ending σ} (h : ending.isDone = true) :
    ending ≠ .cut := by
  rintro rfl
  cases h

structure Run (σ : Type) where
  printed : List String
  ending : Ending σ

namespace Run

variable {σ τ α : Type}

def done (state : σ) : Run σ := ⟨[], .done state⟩

def cut : Run σ := ⟨[], .cut⟩

def failed : Run σ := ⟨[], .failed⟩

def prints (line : String) (state : σ) : Run σ := ⟨[line], .done state⟩

def andThen (first : Run σ) (next : σ → Run τ) : Run τ :=
  match first.ending with
  | .done state => ⟨first.printed ++ (next state).printed, (next state).ending⟩
  | .cut => ⟨first.printed, .cut⟩
  | .failed => ⟨first.printed, .failed⟩

def given (value : Option α) (next : α → Run σ) : Run σ :=
  match value with
  | some a => next a
  | none => failed

def choose (test : Option Bool) (yes no : Run σ) : Run σ := given test fun b => if b then yes else no

/-- Rounds as long as a test holds, but no more than a number of them. -/
def loop (test : σ → Option Bool) (round : σ → Run σ) : Nat → σ → Run σ
  | 0, state => choose (test state) cut (done state)
  | rounds + 1, state =>
    choose (test state) ((round state).andThen (loop test round rounds)) (done state)

/-- Whether an integer comes before the end of a range. -/
def before (step i stop : Int) : Bool := (0 < step && i < stop) || (step < 0 && stop < i)

/-- Rounds for the integers of a range, but no more than a number of them. -/
def count (round : Int → σ → Run σ) (stop step : Int) : Nat → Int → σ → Run σ
  | 0, i, state => if before step i stop then cut else done state
  | rounds + 1, i, state =>
    if before step i stop then (round i state).andThen (count round stop step rounds (i + step))
    else done state

@[simp] theorem done_andThen (state : σ) (next : σ → Run τ) :
    (done state).andThen next = next state := rfl

theorem mk_done_andThen (printed : List String) (state : σ) (next : σ → Run τ) :
    (Run.mk printed (.done state)).andThen next =
      ⟨printed ++ (next state).printed, (next state).ending⟩ := rfl

theorem andThen_done (run : Run σ) : run.andThen done = run := by
  cases run with
  | mk printed ending =>
      cases ending with
      | done state => rw [mk_done_andThen, done, List.append_nil]
      | cut => rfl
      | failed => rfl

theorem andThen_assoc {υ : Type} (run : Run σ) (next : σ → Run τ) (more : τ → Run υ) :
    (run.andThen next).andThen more = run.andThen fun state => (next state).andThen more := by
  cases run with
  | mk printed ending =>
      cases ending with
      | cut => rfl
      | failed => rfl
      | done state =>
          rw [mk_done_andThen, mk_done_andThen]
          cases next state with
          | mk printed' ending' =>
              cases ending' with
              | done state' => simp only [mk_done_andThen, List.append_assoc]
              | cut => rfl
              | failed => rfl

@[simp] theorem given_some (a : α) (next : α → Run σ) : given (some a) next = next a := rfl

inductive Meets (R : σ → τ → Prop) : Ending σ → Ending τ → Prop
  | done {s : σ} {t : τ} : R s t → Meets R (.done s) (.done t)
  | cut : Meets R .cut .cut

theorem Meets.isDone_eq {R : σ → τ → Prop} {ending : Ending σ} {other : Ending τ}
    (h : Meets R ending other) : ending.isDone = other.isDone := by
  cases h with
  | done _ => rfl
  | cut => rfl

/-- The runs print the same lines, end in the same way, and do not fail. -/
structure Alike (R : σ → τ → Prop) (run : Run σ) (other : Run τ) : Prop where
  printed : run.printed = other.printed
  ending : Meets R run.ending other.ending

namespace Alike

variable {σ' τ' : Type} {R : σ → τ → Prop} {S : σ' → τ' → Prop} {run : Run σ} {other : Run τ}

theorem of_done {s : σ} {t : τ} (h : R s t) : Alike R (done s) (done t) := ⟨rfl, .done h⟩

theorem of_prints (line : String) {s : σ} {t : τ} (h : R s t) :
    Alike R (prints line s) (prints line t) := ⟨rfl, .done h⟩

theorem mono {Q : σ → τ → Prop} (h : Alike R run other) (hQ : ∀ s t, R s t → Q s t) :
    Alike Q run other := by
  cases run with
  | mk printed ending =>
      cases other with
      | mk printed' ending' =>
          obtain ⟨hprinted, hending⟩ := h
          cases hending with
          | done hR => exact ⟨hprinted, .done (hQ _ _ hR)⟩
          | cut => exact ⟨hprinted, .cut⟩

theorem symm (h : Alike R run other) : Alike (fun t s => R s t) other run := by
  cases run with
  | mk printed ending =>
      cases other with
      | mk printed' ending' =>
          obtain ⟨hprinted, hending⟩ := h
          cases hending with
          | done hR => exact ⟨hprinted.symm, .done hR⟩
          | cut => exact ⟨hprinted.symm, .cut⟩

theorem andThen (h : Alike R run other) {next : σ → Run σ'} {more : τ → Run τ'}
    (hnext : ∀ s t, R s t → Alike S (next s) (more t)) :
    Alike S (run.andThen next) (other.andThen more) := by
  cases run with
  | mk printed ending =>
      cases other with
      | mk printed' ending' =>
          obtain ⟨hprinted, hending⟩ := h
          cases hending with
          | done hR =>
              have hboth := hnext _ _ hR
              rw [mk_done_andThen, mk_done_andThen]
              exact ⟨congr (congrArg _ hprinted) hboth.printed, hboth.ending⟩
          | cut => exact ⟨hprinted, .cut⟩

theorem choose {b : Bool} {test test' : Option Bool} {yes no : Run σ} {yes' no' : Run τ}
    (htest : test = some b) (htest' : test' = some b) (hyes : Alike R yes yes')
    (hno : Alike R no no') : Alike R (Run.choose test yes no) (Run.choose test' yes' no') := by
  subst htest htest'
  cases b with
  | true => exact hyes
  | false => exact hno

/-- Loops run alike if their tests agree and their rounds run alike. -/
theorem loop {test : σ → Option Bool} {test' : τ → Option Bool} {round : σ → Run σ}
    {round' : τ → Run τ} (htest : ∀ s t, R s t → ∃ b, test s = some b ∧ test' t = some b)
    (hround : ∀ s t, R s t → Alike R (round s) (round' t)) (rounds : Nat) (s : σ) (t : τ)
    (h : R s t) : Alike R (Run.loop test round rounds s) (Run.loop test' round' rounds t) := by
  obtain ⟨b, hs, ht⟩ := htest s t h
  induction rounds generalizing s t b with
  | zero => exact .choose hs ht ⟨rfl, .cut⟩ (.of_done h)
  | succ rounds ih =>
      refine .choose hs ht ((hround s t h).andThen fun s' t' h' => ?_) (.of_done h)
      obtain ⟨b', hs', ht'⟩ := htest s' t' h'
      exact ih s' t' h' b' hs' ht'

/-- A loop whose test says whether an integer comes before the end of a range runs like the rounds
for the range if every round moves the integer by the step. -/
theorem count {J : Int → σ → τ → Prop} {test : σ → Option Bool} {round : σ → Run σ}
    {round' : Int → τ → Run τ} {stop step : Int}
    (htest : ∀ i s t, J i s t → test s = some (before step i stop))
    (hround : ∀ i s t, J i s t → Alike (J (i + step)) (round s) (round' i t)) (rounds : Nat)
    (i : Int) (s : σ) (t : τ) (h : J i s t) :
    Alike (fun s t => ∃ i, J i s t) (Run.loop test round rounds s)
      (Run.count round' stop step rounds i t) := by
  have hbranch {yes : Run σ} {yes' : Run τ} {i : Int} {s : σ} {t : τ}
      (h : J i s t) (hyes : Alike (fun s t => ∃ i, J i s t) yes yes') :
      Alike (fun s t => ∃ i, J i s t) (Run.choose (test s) yes (Run.done s))
        (if before step i stop then yes' else Run.done t) := by
    rw [htest i s t h]
    cases before step i stop with
    | true => exact hyes
    | false => exact .of_done ⟨i, h⟩
  induction rounds generalizing i s t with
  | zero => exact hbranch h ⟨rfl, .cut⟩
  | succ rounds ih =>
      refine hbranch h ((hround i s t h).andThen fun s' t' h' => ?_)
      exact ih (i + step) s' t' h'

end Alike

def Leaves (P : σ → Prop) (run : Run σ) : Prop := ∀ state, run.ending = .done state → P state

namespace Leaves

variable {P Q : σ → Prop} {run : Run σ}

theorem of_done {state : σ} (h : P state) : Leaves P (done state) := by
  intro after hafter
  cases hafter
  exact h

theorem of_cut : Leaves P cut := by
  intro after hafter
  cases hafter

theorem of_failed : Leaves P failed := by
  intro after hafter
  cases hafter

theorem of_prints {line : String} {state : σ} (h : P state) : Leaves P (prints line state) := by
  intro after hafter
  cases hafter
  exact h

theorem mono (h : Leaves P run) (hQ : ∀ state, P state → Q state) : Leaves Q run :=
  fun state hstate => hQ state (h state hstate)

theorem andThen {Q : τ → Prop} (h : Leaves P run) {next : σ → Run τ}
    (hnext : ∀ state, P state → Leaves Q (next state)) : Leaves Q (run.andThen next) := by
  cases run with
  | mk printed ending =>
      intro after hafter
      cases ending with
      | done state => exact hnext state (h state rfl) after hafter
      | cut => cases hafter
      | failed => cases hafter

theorem given {value : Option α} {next : α → Run σ} (h : ∀ a, value = some a → Leaves P (next a)) :
    Leaves P (Run.given value next) := by
  cases value with
  | some a => exact h a rfl
  | none => exact of_failed

theorem choose {test : Option Bool} {yes no : Run σ} (hyes : Leaves P yes) (hno : Leaves P no) :
    Leaves P (Run.choose test yes no) := by
  refine given fun b _ => ?_
  cases b with
  | true => exact hyes
  | false => exact hno

theorem loop {test : σ → Option Bool} {round : σ → Run σ}
    (hround : ∀ state, P state → Leaves P (round state)) (rounds : Nat) {state : σ}
    (h : P state) : Leaves P (Run.loop test round rounds state) := by
  induction rounds generalizing state with
  | zero => exact choose of_cut (of_done h)
  | succ rounds ih => exact choose ((hround state h).andThen fun _ => ih) (of_done h)

end Leaves

theorem Alike.and_leaves {R : σ → τ → Prop} {P : σ → Prop} {run : Run σ} {other : Run τ}
    (h : Alike R run other) (hleaves : run.Leaves P) :
    Alike (fun s t => R s t ∧ P s) run other := by
  cases run with
  | mk printed ending =>
      cases other with
      | mk printed' ending' =>
          obtain ⟨hprinted, hending⟩ := h
          cases hending with
          | done hR => exact ⟨hprinted, .done ⟨hR, hleaves _ rfl⟩⟩
          | cut => exact ⟨hprinted, .cut⟩

end Run

end MiniJava
