import MiniJava.Proofs.Evaluation.Run
import MiniJava.Proofs.Python.Code
import MiniJava.Proofs.Python.Value

/-!
# Runs of Python statements

All the variables of a text are in one place. Assigning a name binds it from there on, whatever the
name meant before, so `print` and `range` are the built-in functions only as long as nothing has
been assigned to them. A loop over a range reads the ends of the range once.
-/

namespace MiniJava.Python

open Run

abbrev Vars := String → Option Value

namespace Vars

def empty : Vars := fun _ => none

def set (vars : Vars) (name : String) (value : Value) : Vars :=
  fun used => if used = name then some value else vars used

def env (vars : Vars) : Env := ⟨vars, fun _ _ => none⟩

@[simp] theorem set_self (vars : Vars) (name : String) (value : Value) :
    vars.set name value name = some value := if_pos rfl

theorem set_other (vars : Vars) {name used : String} (value : Value) (h : used ≠ name) :
    vars.set name value used = vars used := if_neg h

end Vars

namespace Tree

def holds? (e : Tree) (vars : Vars) : Option Bool := (e.value? vars.env).map Value.holds

def int? (e : Tree) (vars : Vars) : Option Int := (e.value? vars.env).bind Value.number?

end Tree

structure Range where
  start : Int
  stop : Int
  step : Int

def range? (start stop : Tree) (step : Option Tree) (vars : Vars) : Option Range :=
  if (vars "range").isNone then do
    let start ← start.int? vars
    let stop ← stop.int? vars
    let step ← match step with
      | none => some 1
      | some step => step.int? vars
    if step = 0 then none else some ⟨start, stop, step⟩
  else none

def updated? (name operator : String) (e : Tree) (vars : Vars) : Option Value := do
  combine? operator (← vars name) (← e.value? vars.env)

mutual

def Code.run (rounds : Nat) : Code → Vars → Run Vars
  | .pass, vars => done vars
  | .assign name e, vars => given (e.value? vars.env) fun value => done (vars.set name value)
  | .update name operator e, vars =>
    given (updated? name operator e vars) fun value => done (vars.set name value)
  | .print e, vars =>
    if (vars "print").isNone then given (e.value? vars.env) fun value => prints value.str vars
    else failed
  | .ifElse condition body other, vars =>
    choose (condition.holds? vars) (runAll rounds body vars) (runAll rounds other vars)
  | .whileLoop condition body, vars => loop condition.holds? (runAll rounds body) rounds vars
  | .forRange counter start stop step body, vars =>
    given (range? start stop step vars) fun range =>
      count (fun i vars => runAll rounds body (vars.set counter (.int i))) range.stop range.step
        rounds range.start vars

def runAll (rounds : Nat) : List Code → Vars → Run Vars
  | [], vars => done vars
  | first :: rest, vars => (first.run rounds vars).andThen (runAll rounds rest)

end

theorem runAll_append (rounds : Nat) (code more : List Code) (vars : Vars) :
    runAll rounds (code ++ more) vars = (runAll rounds code vars).andThen (runAll rounds more) := by
  induction code generalizing vars with
  | nil => rw [List.nil_append, runAll, done_andThen]
  | cons first rest ih =>
      rw [List.cons_append, runAll, runAll, andThen_assoc]
      exact congrArg (first.run rounds vars).andThen (funext ih)

theorem runAll_single (rounds : Nat) (statement : Code) (vars : Vars) :
    runAll rounds [statement] vars = statement.run rounds vars := by
  have hnil : runAll rounds [] = done := by
    funext vars
    rw [runAll]
  rw [runAll, hnil, andThen_done]

end MiniJava.Python
