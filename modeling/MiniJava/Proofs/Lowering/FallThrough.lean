import MiniJava.Proofs.Lowering.CorePrograms
import MiniJava.Proofs.Lowering.Selection

/-!
# Bodies without a break

A switch runs on from one body into the next one if there is no `break` between them. The lowering
does not see this: it gives every switch the statements of the one in which each body is closed. So
what a body lets the run go on to is not run by the emitted chain.
-/

namespace MiniJava

namespace Switch

/-- The label with a `break` behind its statements, if it has any. -/
def closed (label : SwitchCase Stmt) : SwitchCase Stmt :=
  if label.body.isEmpty then label else ⟨label.value, label.body ++ [.breaks]⟩

theorem untilBreak_append_breaks (body : List Stmt) :
    untilBreak (body ++ [.breaks]) = untilBreak body := by
  by_cases h : .breaks ∈ body
  · exact untilBreak_append_of_mem h
  · rw [untilBreak_append_of_not_mem h, untilBreak_of_not_mem h, untilBreak, List.append_nil]

/-- What is written from a label on runs to the first `break`, in its first body or behind. -/
theorem exists_missed (default : Option (List Stmt)) (labels : List (SwitchCase Stmt)) :
    ∃ missed, untilBreak (entered labels default) =
        untilBreak (firstBody default labels) ++ missed ∧
      (.breaks ∈ firstBody default labels → missed = []) ∧
      (.breaks ∉ firstBody default labels →
        missed = untilBreak (behindBody default labels)) := by
  rw [← firstBody_append_behindBody]
  by_cases h : .breaks ∈ firstBody default labels
  · refine ⟨[], ?_, fun _ => rfl, fun hnone => absurd h hnone⟩
    rw [untilBreak_append_of_mem h, List.append_nil]
  · refine ⟨_, ?_, fun hmem => absurd hmem h, fun _ => rfl⟩
    rw [untilBreak_append_of_not_mem h, untilBreak_of_not_mem h]

end Switch

namespace Lowering

open Switch Target

section Groups

variable (place : Place) (subject : Target.Expr) (pending : Option Target.Expr) (label : Expr)
  (cases : List (SwitchCase Stmt))

theorem groups_emptyBody : groups place subject pending (⟨label, []⟩ :: cases) =
    value place label >>= fun test =>
      groups place subject (some (matching subject pending test)) cases := by
  rw [groups]
  rfl

theorem groups_body (s : Stmt) (body : List Stmt) :
    groups place subject pending (⟨label, s :: body⟩ :: cases) = do
      let test ← value place label
      let suite ← inScope (stmts place (untilBreak (s :: body)))
      return (matching subject pending test, suite) :: (← groups place subject none cases) := by
  rw [groups, caseBody_eq]
  rfl

theorem groups_closed :
    groups place subject pending (cases.map closed) = groups place subject pending cases := by
  induction cases generalizing pending with
  | nil => rfl
  | cons case cases ih =>
      obtain ⟨label, body⟩ := case
      cases body with
      | nil =>
          change groups place subject pending (⟨label, []⟩ :: cases.map closed) = _
          simp only [groups_emptyBody, ih]
      | cons s body =>
          change groups place subject pending
            (⟨label, s :: (body ++ [.breaks])⟩ :: cases.map closed) = _
          have hsuite : untilBreak (s :: (body ++ [.breaks])) = untilBreak (s :: body) :=
            untilBreak_append_breaks (s :: body)
          simp only [groups_body, ih, hsuite]

end Groups

/-- A switch is lowered as if all its bodies were closed. -/
theorem stmt_closed (place : Place) (shared : Bool) (scrutinee : Expr)
    (cases : List (SwitchCase Stmt)) (default : Option (List Stmt)) :
    stmt place shared (.switch scrutinee (cases.map closed) default) =
      stmt place shared (.switch scrutinee cases default) := by
  simp only [stmt, groups_closed]

section Switches

variable {place : Place} {shared : Bool} {table after : SymbolTable} {scrutinee : Expr}
  {cases front back : List (SwitchCase Stmt)} {case : SwitchCase Stmt}
  {default : Option (List Stmt)} {out : List Target.Stmt}

/-- Every switch is lowered as if its bodies were closed. So the emitted statements run the first
body from the label on that matches, up to its first `break`, while the switch goes on from a body
without one through all that is behind it, to the first `break` there. -/
theorem fall_through_not_run {τ : Type} (test : τ → Python.Tree → Bool)
    (plain : Target.Stmt → τ → Exit → τ → Prop) (state : τ) {matched : SwitchCase Stmt → Bool}
    (hcases : cases = front ++ case :: back) (hfront : ∀ earlier ∈ front, matched earlier = false)
    (hcase : matched case = true)
    (hcompare : Compares place table scrutinee cases (test state) matched)
    (hout : (stmt place shared (.switch scrutinee cases default)).outcome table =
      (.ok out, after)) :
    stmt place shared (.switch scrutinee (cases.map closed) default) =
      stmt place shared (.switch scrutinee cases default) ∧
    ∃ suite missed, Suite place table (untilBreak (firstBody default (case :: back))) suite ∧
      (∀ exit later, Sequence (Runs test plain) out state exit later ↔
        Sequence (Runs test plain) suite state exit later) ∧
      (∀ (σ : Type) (ends : Stmt → σ → Exit → σ → Prop), Leaving ends → ∀ before exit later,
        Switched ends (entered (case :: back) default) before exit later ↔
          Switched ends (untilBreak (firstBody default (case :: back)) ++ missed)
            before exit later) ∧
      (.breaks ∈ firstBody default (case :: back) → missed = []) ∧
      (.breaks ∉ firstBody default (case :: back) →
        missed = untilBreak (behindBody default (case :: back))) := by
  have hdrop : (cases.dropWhile fun case => !matched case) = case :: back := by
    have hskipped : ∀ earlier ∈ front, (!matched earlier) = true := fun earlier hearlier => by
      rw [hfront earlier hearlier, Bool.not_false]
    rw [hcases, List.dropWhile_append_of_pos hskipped, List.dropWhile_cons_of_neg (by simp [hcase])]
  obtain ⟨suite, hsuite, hemitted⟩ := switch_chooses plain hout hcompare
  rw [hdrop] at hsuite
  obtain ⟨missed, hentered, hclosed, hopen⟩ := exists_missed default (case :: back)
  refine ⟨stmt_closed place shared scrutinee cases default, suite, missed, hsuite, hemitted, ?_,
    hclosed, hopen⟩
  intro σ ends hends before exit later
  rw [switched_untilBreak hends, hentered]

/-- With `x` at one the first label matches, and its body has no `break`: the emitted chain gives
`x` the first value, and the switch goes on to the second one. -/
theorem fall_through_not_run_first :
    let number (text : String) : Expr := .literal (.number text) .start
    let cases : List (SwitchCase Stmt) := [⟨number "1", [assignment "10"]⟩,
      ⟨number "2", [assignment "20", .breaks]⟩]
    let table : SymbolTable := ⟨[("x", declared .int .start)], []⟩
    let env : Python.Env := ⟨fun _ => some (.int 1), fun _ _ => none⟩
    ∃ out, (stmt .outside false (.switch (.name "x" .start) cases none)).outcome table =
        (.ok out, table) ∧
      Switched recorded (entered cases none) [] .done [assignment "10", assignment "20"] ∧
      Sequence (Runs (fun _ => sameSides env) recordedOut) out [] .done
        [.assign (.name "x") (.number "10")] := by
  intro number cases table env
  have hout : (stmt .outside false (.switch (.name "x" .start) cases none)).outcome table =
      (.ok [.ifElse (.binary .eq (.name "x") (.number "1")) [.assign (.name "x") (.number "10")]
        (.elseIf (.binary .eq (.name "x") (.number "2")) [.assign (.name "x") (.number "20")]
          .nothing)], table) := rfl
  have hcompare : Compares .outside table (.name "x" .start) cases (sameSides env)
      fun case => labelValue? (fun _ => some (.int 1)) case.value = some (.int 1) := by
    intro subject hsubject case hcase label hlabel
    cases hsubject
    simp only [cases, List.mem_cons, List.not_mem_nil, or_false] at hcase
    rcases hcase with rfl | rfl
    all_goals
      cases hlabel
      decide
  obtain ⟨-, suite, missed, ⟨inner, hsuite⟩, hemitted, hsource, -, hopen⟩ :=
    fall_through_not_run (fun _ => sameSides env) recordedOut [] (rfl : cases = [] ++ _)
      (fun _ hnone => absurd hnone List.not_mem_nil) (by decide) hcompare hout
  cases hsuite
  refine ⟨_, hout, ?_, ?_⟩
  · rw [hopen (by simp [firstBody, assignment])] at hsource
    refine (hsource _ recorded leaving_recorded [] .done _).mpr ⟨.done, ?_, rfl⟩
    exact .next ⟨rfl, rfl⟩ (.next ⟨rfl, rfl⟩ .nil)
  · exact (hemitted .done _).mpr (sequence_singleton.mpr (runs_assign.mpr ⟨rfl, rfl⟩))

end Switches

end Lowering

def Switch.resolved (body : List Stmt) : List Stmt :=
  body.flatMap fun
    | .switch scrutinee cases default =>
      let value (e : Expr) : Option Value := e.value? fun _ => none
      untilBreak (entered
        (fromMatch (fun label => decide (value label.value = value scrutinee)) false cases) default)
    | s => [s]

namespace Program

def resolved (program : Program) : Program :=
  ⟨(Switch.resolved program.statements).map Item.statement⟩

/-- The first label matches and has no `break`: Java adds one and two, Python one. -/
theorem fall_through_lost :
    ∃ program text code,
      ofSource ("int y = 0; switch (1) \x7b case 1: y += 1; case 2: y += 2; \x7d " ++
        "System.out.println(y);") = .ok program ∧
      program.diagnostics = [] ∧
      program.resolved.execution.Halts ["3"] ∧
      program.toPython = .ok text ∧ Python.ReadsAs text code ∧
      (Python.execution code).Halts ["1"] := by
  let text := "y = 0\nif 1 == 1:\n    y += 1\nelif 1 == 2:\n    y += 2\nprint(y)\n"
  obtain ⟨program, hsource, hclean, hhalts, htext⟩ :=
    exists_program ("int y = 0; switch (1) \x7b case 1: y += 1; case 2: y += 2; \x7d " ++
        "System.out.println(y);")
      (fun program => program.diagnostics = [] ∧
        program.resolved.execution.haltsWithin 0 ["3"] = true ∧ program.toPython = .ok text)
      (by decide +kernel)
  have hrows : Python.rowsOf text = [⟨0, "y = 0".toList⟩, ⟨0, "if 1 == 1:".toList⟩,
      ⟨4, "y += 1".toList⟩, ⟨0, "elif 1 == 2:".toList⟩, ⟨4, "y += 2".toList⟩,
      ⟨0, "print(y)".toList⟩] := by decide +kernel
  have hblock : Python.Block 0 (Python.rowsOf text) [.line "y = 0".toList,
      .clause "if 1 == 1:".toList [.line "y += 1".toList],
      .clause "elif 1 == 2:".toList [.line "y += 2".toList], .line "print(y)".toList] :=
    hrows ▸ .line (by decide) (.clause (by decide) (.line (by decide) .nil) (List.cons_ne_nil _ _)
      (.clause (by decide) (.line (by decide) .nil) (List.cons_ne_nil _ _)
        (.line (by decide) .nil)))
  obtain ⟨code, hread, hshort⟩ := Python.exists_halting 0 ["1"] hblock (by
    simp only [Python.codeOf, Python.partsOf]
    decide +kernel)
  exact ⟨program, text, code, hsource, hclean, Execution.halts_of_within hhalts, htext, hread,
    hshort⟩

end Program

end MiniJava
