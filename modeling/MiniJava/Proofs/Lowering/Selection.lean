import MiniJava.Proofs.Evaluation.Switch
import MiniJava.Proofs.Evaluation.Value
import MiniJava.Proofs.Lowering.Restored
import MiniJava.Proofs.Python.Value
import MiniJava.Proofs.Target.Reading

/-!
# Statements that a switch selects

The lowering of a switch gives the labels with statements their own part of a chain of conditions:
the statements up to the first `break`. A label without statements shares those of the next one. So
the chain runs the first body from the label on that matches, and that is all that the switch runs
if its bodies are closed.
-/

namespace MiniJava

open Target (Exit)

def Python.Tree.holds (test : Python.Tree → Bool) : Python.Tree → Bool
  | .binary symbol lhs rhs =>
    if symbol = "or" then lhs.holds test || rhs.holds test else test (.binary symbol lhs rhs)
  | tree => test tree

namespace Target

def Alternative.chosen (test : Python.Tree → Bool) : Alternative → List Stmt
  | .nothing => []
  | .elseIf condition body rest =>
    if condition.tree.holds test then body else rest.chosen test
  | .otherwise body => body

/-- How emitted statements end: an `if` as the statements that it runs do, and every other
statement as it is given. -/
inductive Runs {σ : Type} (test : σ → Python.Tree → Bool) (plain : Stmt → σ → Exit → σ → Prop) :
    Stmt → σ → Exit → σ → Prop
  | chooses {condition : Expr} {body : List Stmt} {rest : Alternative} {before after : σ}
      {exit : Exit} :
      Sequence (Runs test plain) ((Alternative.elseIf condition body rest).chosen (test before))
        before exit after →
      Runs test plain (.ifElse condition body rest) before exit after
  | other {s : Stmt} {before after : σ} {exit : Exit} :
      (∀ condition body rest, s ≠ .ifElse condition body rest) → plain s before exit after →
      Runs test plain s before exit after

theorem runs_ifElse {σ : Type} {test : σ → Python.Tree → Bool}
    {plain : Stmt → σ → Exit → σ → Prop} {condition : Expr} {body : List Stmt}
    {rest : Alternative} {before after : σ} {exit : Exit} :
    Runs test plain (.ifElse condition body rest) before exit after ↔
      Sequence (Runs test plain) ((Alternative.elseIf condition body rest).chosen (test before))
        before exit after := by
  constructor
  · intro h
    cases h with
    | chooses hrun => exact hrun
    | other hne _ => exact absurd rfl (hne _ _ _)
  · exact .chooses

theorem runs_assign {σ : Type} {test : σ → Python.Tree → Bool}
    {plain : Stmt → σ → Exit → σ → Prop} {target value : Expr} {before after : σ} {exit : Exit} :
    Runs test plain (.assign target value) before exit after ↔
      plain (.assign target value) before exit after := by
  constructor
  · intro h
    cases h with
    | other _ hplain => exact hplain
  · refine Runs.other fun condition body rest h => ?_
    cases h

end Target

namespace Lowering

open Switch Target

theorem caseBody_eq (place : Place) (body : List Stmt) :
    caseBody place body = stmts place (untilBreak body) := by
  induction body with
  | nil => rw [caseBody, untilBreak, stmts]
  | cons s body ih =>
      by_cases hs : s = .breaks
      · rw [hs, caseBody, untilBreak, stmts]
      · rw [untilBreak_cons hs, stmts, caseBody, ih]
        exact hs

/-- The emitted chain runs what is chosen of it. -/
theorem sequence_chain {σ : Type} {test : σ → Python.Tree → Bool}
    {plain : Target.Stmt → σ → Exit → σ → Prop} (labels : List (Target.Expr × List Target.Stmt))
    (rest : Option (List Target.Stmt)) {before after : σ} {exit : Exit} :
    Sequence (Runs test plain) (chain labels rest) before exit after ↔
      Sequence (Runs test plain) ((alternatives rest labels).chosen (test before))
        before exit after := by
  cases labels with
  | nil => cases rest <;> rfl
  | cons label labels =>
      rw [chain, sequence_singleton, runs_ifElse]
      rfl

theorem holds_matching (test : Python.Tree → Bool) (subject : Target.Expr)
    (pending : Option Target.Expr) (label : Target.Expr) :
    (matching subject pending label).tree.holds test =
      (pending.any (fun earlier => earlier.tree.holds test) ||
        test (.comparison subject.tree [("==", label.tree)])) := by
  cases pending <;> rfl

/-- What the statements are lowered to in a scope of their own. -/
def Suite (place : Place) (table : SymbolTable) (body : List Stmt) (out : List Target.Stmt) :
    Prop := ∃ inner, (stmts place body).outcome table.enter = (.ok out, inner)

variable {place : Place} {table after : SymbolTable} {cases : List (SwitchCase Stmt)}
  {default : Option (List Stmt)} {subject : Target.Expr}
  {labels : List (Target.Expr × List Target.Stmt)} {rest : Option (List Target.Stmt)}

theorem suite_of_default (h : (defaultBody place default).outcome table = (.ok rest, after)) :
    Suite place table (untilBreak (default.getD [])) (rest.getD []) := by
  cases default with
  | none =>
      rw [defaultBody] at h
      cases h
      exact ⟨table.enter, by rw [Option.getD_none, untilBreak, stmts]; rfl⟩
  | some body =>
      obtain ⟨first, inner, hfirst, -, rfl⟩ := exists_of_default h
      rw [caseBody_eq] at hfirst
      exact ⟨inner, hfirst⟩

/-- Of the groups and the default, the statements are chosen of the first body from the label on
that matches first; a comparison that is pending is that of a label before. -/
theorem groups_choose {test : Python.Tree → Bool} {matched : SwitchCase Stmt → Bool}
    {pending : Option Target.Expr}
    (hgroups : (groups place subject pending cases).outcome table = (.ok labels, after))
    (hdefault : (defaultBody place default).outcome table = (.ok rest, table))
    (htest : ∀ case ∈ cases, ∀ label, expr place table case.value = .ok label →
      test (.comparison subject.tree [("==", label.tree)]) = matched case) :
    Suite place table (untilBreak (firstBody default (fromMatch matched
        (pending.any fun earlier => earlier.tree.holds test) cases)))
      ((alternatives rest labels).chosen test) := by
  induction cases generalizing pending labels with
  | nil =>
      rw [groups] at hgroups
      cases hgroups
      rw [fromMatch_nil, firstBody]
      cases rest <;> exact suite_of_default hdefault
  | cons case cases ih =>
      obtain ⟨value, body⟩ := case
      have hrest := fun case hcase => htest case (List.mem_cons_of_mem _ hcase)
      rw [fromMatch_cons]
      cases body with
      | nil =>
          obtain ⟨label, hlabel, hmore⟩ := exists_of_emptyLabel hgroups
          have hbehind := ih hmore hrest
          have hmatch := htest ⟨value, []⟩ List.mem_cons_self label (Prod.mk.inj hlabel).1
          rw [Option.any_some, holds_matching, hmatch] at hbehind
          split
          · next hmet =>
              rw [hmet] at hbehind
              exact hbehind
          · next hmet =>
              rw [eq_false_of_ne_true hmet] at hbehind
              exact hbehind
      | cons s body =>
          obtain ⟨label, first, inner, more, hlabel, hfirst, hmore, rfl⟩ := exists_of_group hgroups
          have hmatch := htest ⟨value, s :: body⟩ List.mem_cons_self label (Prod.mk.inj hlabel).1
          have hleave := (caseBody_stays place (s :: body)).leave_eq hfirst
          rw [hleave] at hmore
          rw [caseBody_eq] at hfirst
          rw [alternatives, Alternative.chosen, holds_matching, hmatch]
          split
          · exact ⟨inner, hfirst⟩
          · exact ih hmore hrest

/-- The conditions are spelled if what is compared in them is. -/
theorem spelled_groups {pending : Option Target.Expr}
    (hgroups : (groups place subject pending cases).outcome table = (.ok labels, after))
    (hsubject : subject.Spelled) (hpending : ∀ earlier ∈ pending, earlier.Spelled)
    (hlabels : ∀ case ∈ cases, ∀ label, expr place table case.value = .ok label → label.Spelled) :
    ∀ group ∈ labels, group.1.Spelled := by
  induction cases generalizing pending labels with
  | nil =>
      rw [groups] at hgroups
      cases hgroups
      exact fun _ hgroup => absurd hgroup List.not_mem_nil
  | cons case cases ih =>
      obtain ⟨value, body⟩ := case
      have hrest := fun case hcase => hlabels case (List.mem_cons_of_mem _ hcase)
      have hmatching {label : Target.Expr} (hlabel : expr place table value = .ok label) :
          (matching subject pending label).Spelled := by
        have hspelled := hlabels ⟨value, body⟩ List.mem_cons_self label hlabel
        cases pending with
        | none => exact ⟨hsubject, hspelled⟩
        | some earlier => exact ⟨hpending earlier rfl, hsubject, hspelled⟩
      cases body with
      | nil =>
          obtain ⟨label, hlabel, hmore⟩ := exists_of_emptyLabel hgroups
          refine ih hmore (fun earlier hearlier => ?_) hrest
          cases hearlier
          exact hmatching (Prod.mk.inj hlabel).1
      | cons s body =>
          obtain ⟨label, first, inner, more, hlabel, hfirst, hmore, rfl⟩ := exists_of_group hgroups
          rw [(caseBody_stays place (s :: body)).leave_eq hfirst] at hmore
          refine List.forall_mem_cons.mpr ⟨hmatching (Prod.mk.inj hlabel).1, ?_⟩
          exact ih hmore (fun _ hnone => absurd hnone (Option.not_mem_none _)) hrest

/-- The emitted comparisons of the subject with the labels come out as the labels match. -/
def Compares (place : Place) (table : SymbolTable) (scrutinee : Expr)
    (cases : List (SwitchCase Stmt)) (test : Python.Tree → Bool)
    (matched : SwitchCase Stmt → Bool) : Prop :=
  ∀ subject, expr place table scrutinee = .ok subject → ∀ case ∈ cases, ∀ label,
    expr place table case.value = .ok label →
      test (.comparison subject.tree [("==", label.tree)]) = matched case

variable {shared : Bool} {scrutinee : Expr} {out : List Target.Stmt}

/-- The emitted statements of a switch run the first body from the label on that matches first, up
to its first `break`. -/
theorem switch_chooses {τ : Type} {test : τ → Python.Tree → Bool}
    (plain : Target.Stmt → τ → Exit → τ → Prop) {state : τ} {matched : SwitchCase Stmt → Bool}
    (hout : (stmt place shared (.switch scrutinee cases default)).outcome table = (.ok out, after))
    (hcompare : Compares place table scrutinee cases (test state) matched) :
    ∃ suite, Suite place table
        (untilBreak (firstBody default (cases.dropWhile fun case => !matched case))) suite ∧
      ∀ exit later, Sequence (Runs test plain) out state exit later ↔
        Sequence (Runs test plain) suite state exit later := by
  obtain ⟨subject, labels, behind, rest, hsubject, hlabels, hdefault, rfl⟩ := exists_of_switch hout
  obtain rfl := (groups_reads place cases subject none).after hlabels
  obtain rfl := (defaultBody_reads place default).after hdefault
  refine ⟨_, groups_choose hlabels hdefault (hcompare subject (Prod.mk.inj hsubject).1), ?_⟩
  exact fun _ _ => sequence_chain labels rest

/-- Entered at these labels, the switch runs the first of their bodies up to its first `break`, and
the emitted statements run what this is lowered to. -/
structure Selects {σ τ : Type} (ends : Stmt → σ → Exit → σ → Prop)
    (emittedEnds : Target.Stmt → τ → Exit → τ → Prop) (place : Place) (table : SymbolTable)
    (default : Option (List Stmt)) (out : List Target.Stmt) (state : τ)
    (labels : List (SwitchCase Stmt)) : Prop where
  source : ∀ before exit later, Switched ends (entered labels default) before exit later ↔
    Sequence ends (untilBreak (firstBody default labels)) before exit later
  emitted : ∃ suite, Suite place table (untilBreak (firstBody default labels)) suite ∧
    ∀ exit later, Sequence emittedEnds out state exit later ↔
      Sequence emittedEnds suite state exit later

/-- If the labels differ, the bodies are closed and no `break` leaves the switch from inside a
statement, then the emitted statements select what the switch does: the first body from the label
on that matches the subject, or the default. This needs that each comparison comes out in Python as
the label matches. The conditions are read as they are meant. -/
theorem disciplined_switch_selects {σ τ V : Type} [DecidableEq V]
    {ends : Stmt → σ → Exit → σ → Prop} (hends : Leaving ends) (test : τ → Python.Tree → Bool)
    (plain : Target.Stmt → τ → Exit → τ → Prop) (state : τ) {value : Expr → V} {selector : V}
    (hclosed : Closed default cases)
    (hlevel : ∀ s ∈ entered cases default, s ≠ .breaks → s.shape.jumps = 0)
    (hdistinct : (cases.map fun case => value case.value).Nodup)
    (hcompare : Compares place table scrutinee cases (test state)
      fun case => value case.value = selector)
    (hout : (stmt place shared (.switch scrutinee cases default)).outcome table =
      (.ok out, after)) :
    (∀ front case back, cases = front ++ case :: back → value case.value = selector →
      Selects ends (Runs test plain) place table default out state (case :: back)) ∧
    ((∀ case ∈ cases, value case.value ≠ selector) →
      Selects ends (Runs test plain) place table default out state []) ∧
    ∃ labels rest, out = chain labels rest ∧
      ((∀ e ∈ scrutinee :: cases.map SwitchCase.value, ∀ t, expr place table e = .ok t →
        t.Spelled) → ∀ group ∈ labels, ∀ tree,
          Python.Reads group.1.toText tree ↔ tree = group.1.tree) := by
  have hselects (front labels : List (SwitchCase Stmt)) (hcases : cases = front ++ labels)
      (hdrop : (cases.dropWhile fun case => !decide (value case.value = selector)) = labels) :
      Selects ends (Runs test plain) place table default out state labels := by
    have hemitted := switch_chooses plain hout hcompare
    rw [hdrop] at hemitted
    subst hcases
    refine ⟨fun before exit later => switched_entered hends hclosed.behind fun s hs => ?_, hemitted⟩
    refine hlevel s ?_
    rw [entered_append]
    exact List.mem_append_right _ hs
  refine ⟨fun front case back hcases hcase => ?_, fun hnone => ?_, ?_⟩
  · refine hselects front _ hcases ?_
    have hfront : ∀ earlier ∈ front, (!decide (value earlier.value = selector)) = true := by
      rw [hcases, List.map_append, List.nodup_append] at hdistinct
      intro earlier hearlier
      have hne := hdistinct.2.2 _ (List.mem_map_of_mem hearlier) _ List.mem_cons_self
      simpa [hcase] using hne
    rw [hcases, List.dropWhile_append_of_pos hfront, List.dropWhile_cons_of_neg (by simp [hcase])]
  · refine hselects cases [] (List.append_nil _).symm (List.dropWhile_eq_nil_iff.mpr ?_)
    exact fun case hcase => by simpa using hnone case hcase
  · obtain ⟨subject, labels, behind, rest, hsubject, hlabels, -, rfl⟩ := exists_of_switch hout
    refine ⟨labels, rest, rfl, fun hspelled group hgroup => ?_⟩
    refine Target.Expr.reads_toText_iff group.1 (spelled_groups hlabels ?_ ?_ ?_ group hgroup)
    · exact hspelled scrutinee List.mem_cons_self subject (Prod.mk.inj hsubject).1
    · exact fun _ hnone => absurd hnone (Option.not_mem_none _)
    · exact fun case hcase => hspelled case.value
        (List.mem_cons_of_mem _ (List.mem_map_of_mem hcase))

/-- Every statement but a `break` is done, and is recorded. -/
def recorded : Stmt → List Stmt → Exit → List Stmt → Prop
  | .breaks, before, exit, after => exit = .broken ∧ after = before
  | s, before, exit, after => exit = .done ∧ after = before ++ [s]

theorem leaving_recorded : Leaving recorded where
  breaks := Iff.rfl
  others {s before after} hjumps hends := by
    cases s with
    | breaks => cases hjumps
    | _ => exact Exit.noConfusion hends.1

/-- Every emitted statement is done, and is recorded. -/
def recordedOut (s : Target.Stmt) (before : List Target.Stmt) (exit : Exit)
    (after : List Target.Stmt) : Prop := exit = .done ∧ after = before ++ [s]

def labelValue? (read : String → Option Value) : Expr → Option Value
  | .literal (.char text) _ => text.toList.head?.map fun c => .int c.toNat
  | e => e.value? read

/-- Whether both sides of `==` have the same value; an integer is never a text. -/
def sameSides (env : Python.Env) : Python.Tree → Bool
  | .comparison lhs [("==", rhs)] => decide (lhs.value? env = rhs.value? env)
  | _ => false

/-- An assignment to `x`. -/
def assignment (text : String) : Stmt :=
  .expression (.assign "x" none (.literal (.number text) .start) .start)

/-- With `x` at two the second label matches, which has no statements, so those of the third one
are run. -/
theorem disciplined_switch_selects_shared :
    let number (text : String) : Expr := .literal (.number text) .start
    let cases : List (SwitchCase Stmt) := [⟨number "1", [assignment "10", .breaks]⟩,
      ⟨number "2", []⟩, ⟨number "3", [assignment "20", .breaks]⟩]
    let default := some [assignment "0"]
    let table : SymbolTable := ⟨[("x", declared .int .start)], []⟩
    let env : Python.Env := ⟨fun _ => some (.int 2), fun _ _ => none⟩
    ∃ out, (stmt .outside false (.switch (.name "x" .start) cases default)).outcome table =
        (.ok out, table) ∧
      Switched recorded (entered (cases.drop 1) default) [] .done [assignment "20"] ∧
      Sequence (Runs (fun _ => sameSides env) recordedOut) out [] .done
        [.assign (.name "x") (.number "20")] := by
  intro number cases default table env
  have hout : (stmt .outside false (.switch (.name "x" .start) cases default)).outcome table =
      (.ok [.ifElse (.binary .eq (.name "x") (.number "1"))
          [.assign (.name "x") (.number "10")]
        (.elseIf (.binary .or (.binary .eq (.name "x") (.number "2"))
            (.binary .eq (.name "x") (.number "3"))) [.assign (.name "x") (.number "20")]
        (.otherwise [.assign (.name "x") (.number "0")]))], table) := rfl
  let read : String → Option Value := fun _ => some (.int 2)
  have hclosed : Closed default cases := by simp [cases, default, Closed]
  have hlevel : ∀ s ∈ entered cases default, s ≠ .breaks → s.shape.jumps = 0 := by
    simp [cases, default, entered, assignment, Stmt.shape, Shape.jumps]
  have hdistinct : (cases.map fun case => labelValue? read case.value).Nodup := by decide
  have hcompare : Compares .outside table (.name "x" .start) cases (sameSides env)
      fun case => labelValue? read case.value = some (.int 2) := by
    intro subject hsubject case hcase label hlabel
    cases hsubject
    simp only [cases, List.mem_cons, List.not_mem_nil, or_false] at hcase
    rcases hcase with rfl | rfl | rfl
    all_goals
      cases hlabel
      decide
  obtain ⟨hsource, suite, ⟨inner, hsuite⟩, hemitted⟩ := (disciplined_switch_selects
    leaving_recorded (fun _ => sameSides env) recordedOut [] hclosed hlevel hdistinct hcompare
    hout).1 (cases.take 1) ⟨number "2", []⟩ (cases.drop 2) rfl (by decide)
  cases hsuite
  refine ⟨_, hout, ?_, ?_⟩
  · exact (hsource [] .done _).mpr (sequence_singleton.mpr ⟨rfl, rfl⟩)
  · exact (hemitted .done _).mpr (sequence_singleton.mpr (runs_assign.mpr ⟨rfl, rfl⟩))

/-- The character matches its code, but Python compares it as a text: the default is run in place
of the statements of the label. -/
theorem character_label_not_selected :
    let cases : List (SwitchCase Stmt) :=
      [⟨.literal (.char "a") .start, [assignment "1", .breaks]⟩]
    let default := some [assignment "2"]
    let table : SymbolTable := ⟨[("x", declared .int .start)], []⟩
    let read : String → Option Value := fun _ => some (.int 97)
    ∃ out, (stmt .outside false (.switch (.name "x" .start) cases default)).outcome table =
        (.ok out, table) ∧
      Closed default cases ∧
      (∀ s ∈ entered cases default, s ≠ .breaks → s.shape.jumps = 0) ∧
      (cases.map fun case => labelValue? read case.value).Nodup ∧
      (∀ case ∈ cases, labelValue? read case.value = labelValue? read (.name "x" .start)) ∧
      Switched recorded (entered cases default) [] .done [assignment "1"] ∧
      ∀ exit later, Sequence (Runs (fun _ => sameSides ⟨read, fun _ _ => none⟩) recordedOut) out []
        exit later → later = [.assign (.name "x") (.number "2")] := by
  intro cases default table read
  have hout : (stmt .outside false (.switch (.name "x" .start) cases default)).outcome table =
      (.ok [.ifElse (.binary .eq (.name "x") (.char "a")) [.assign (.name "x") (.number "1")]
        (.otherwise [.assign (.name "x") (.number "2")])], table) := rfl
  refine ⟨_, hout, by simp [cases, default, Closed], ?_, by decide, by decide, ?_, ?_⟩
  · simp [cases, default, entered, assignment, Stmt.shape, Shape.jumps]
  · refine (switched_entered leaving_recorded ?_ ?_).mpr (sequence_singleton.mpr ⟨rfl, rfl⟩)
    · simp [cases, default, Closed]
    · simp [cases, default, entered, assignment, Stmt.shape, Shape.jumps]
  · intro exit later hrun
    rw [sequence_singleton, runs_ifElse] at hrun
    exact (runs_assign.mp (sequence_singleton.mp hrun)).2

end Lowering

end MiniJava
