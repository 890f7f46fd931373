import MiniJava.Proofs.Lowering.CorePrograms
import Mathlib.Logic.Relation

/-!
# Bounds of counting loops

A range takes its end before the loop starts. What the bound of a counting loop needs is assigned in
no round, unless it is assigned where the loop does not look: by the update, if the bound reads the
counter, in the label of a case, or as what the bound itself assigns. A bound with assignments in it
cannot be lowered.
-/

namespace MiniJava

namespace Expr

/-- The names whose values an expression needs; a step needs its target, and so does an assignment
that computes with the old value. -/
def used : Expr → List String
  | .literal _ _ => []
  | .name read _ => [read]
  | .binary _ lhs rhs => lhs.used ++ rhs.used
  | .unary _ operand => operand.used
  | .assign _ none value _ => value.used
  | .assign target (some _) value _ => target :: value.used
  | .step target _ _ _ => [target]

/-- The names that an expression revises: it needs their values and assigns them. -/
def revised : Expr → List String
  | .literal _ _ | .name _ _ => []
  | .binary _ lhs rhs => lhs.revised ++ rhs.revised
  | .unary _ operand => operand.revised
  | .assign _ none value _ => value.revised
  | .assign target (some _) value _ => target :: value.revised
  | .step target _ _ _ => [target]

theorem mem_used_iff {e : Expr} {name : String} :
    name ∈ e.used ↔ name ∈ e.reads ∨ name ∈ e.revised := by
  induction e with
  | literal value position => simp [used, reads, revised]
  | name read position => simp [used, reads, revised]
  | binary op lhs rhs ihl ihr =>
      simp only [used, reads, revised, List.mem_append, ihl, ihr]
      exact or_or_or_comm
  | unary op operand ih => exact ih
  | assign target op value position ih =>
      cases op with
      | none => exact ih
      | some op =>
          simp only [used, reads, revised, List.mem_cons, ih]
          exact or_left_comm
  | step target op form position => simp [used, reads, revised]

theorem revised_subset_assigned (e : Expr) : e.revised ⊆ e.assigned := by
  induction e with
  | literal value position => exact List.nil_subset _
  | name read position => exact List.nil_subset _
  | binary op lhs rhs ihl ihr =>
      exact List.append_subset.mpr ⟨List.Subset.trans ihl (List.subset_append_left _ _),
        List.Subset.trans ihr (List.subset_append_right _ _)⟩
  | unary op operand ih => exact ih
  | assign target op value position ih =>
      cases op with
      | none => exact List.Subset.trans ih (List.subset_cons_self _ _)
      | some op => exact List.cons_subset_cons _ ih
  | step target op form position => exact List.Subset.refl _

end Expr

/-- An expression that can be lowered assigns nothing. -/
theorem Lowering.assigned_eq_nil {place : Place} {table : SymbolTable} {e : Expr}
    {out : Target.Expr} (h : Lowering.expr place table e = .ok out) : e.assigned = [] := by
  induction e generalizing out with
  | literal value position => rfl
  | name word position => rfl
  | assign target op value position => cases h
  | step target op form position => cases h
  | unary op operand ih =>
      rw [Lowering.expr] at h
      cases hoperand : Lowering.expr place table operand with
      | error error =>
          rw [hoperand] at h
          cases h
      | ok inner => exact ih hoperand
  | binary op lhs rhs ihl ihr =>
      rw [Lowering.expr] at h
      split at h
      · cases h
      · cases hleft : Lowering.expr place table lhs with
        | error error =>
            rw [hleft] at h
            cases h
        | ok left =>
            cases hright : Lowering.expr place table rhs with
            | error error =>
                rw [hleft, hright] at h
                cases h
            | ok right => rw [Expr.assigned, ihl hleft, ihr hright, List.append_nil]

mutual

/-- The expressions in a statement, at every depth. -/
def Stmt.expressions : Stmt → List Expr
  | .declare decl => decl.init.toList
  | .expression e => [e]
  | .block body => allExpressions body
  | .ifElse e thenBranch elseBranch =>
    e :: (thenBranch.expressions ++ branchExpressions elseBranch)
  | .whileLoop e body => e :: body.expressions
  | .doWhile body e => e :: body.expressions
  | .forLoop init e update body =>
    branchExpressions init ++ (e.toList ++ (update ++ body.expressions))
  | .switch e cases default => e :: (caseExpressions cases ++ partExpressions default)
  | .tryCatch body catches cleanup =>
    allExpressions body ++ (catchExpressions catches ++ partExpressions cleanup)
  | .print _ args _ => args
  | .returns value _ => value.toList
  | .breaks | .continues | .empty => []

def allExpressions : List Stmt → List Expr
  | [] => []
  | first :: rest => first.expressions ++ allExpressions rest

def branchExpressions : Option Stmt → List Expr
  | none => []
  | some branch => branch.expressions

def partExpressions : Option (List Stmt) → List Expr
  | none => []
  | some body => allExpressions body

def caseExpressions : List (SwitchCase Stmt) → List Expr
  | [] => []
  | ⟨value, body⟩ :: rest => value :: (allExpressions body ++ caseExpressions rest)

def catchExpressions : List (CatchClause Stmt) → List Expr
  | [] => []
  | ⟨_, _, body, _⟩ :: rest => allExpressions body ++ catchExpressions rest

end

mutual

/-- The values of the case labels in a statement, at every depth. -/
def Stmt.labels : Stmt → List Expr
  | .block body => allLabels body
  | .ifElse _ thenBranch elseBranch => thenBranch.labels ++ branchLabels elseBranch
  | .whileLoop _ body => body.labels
  | .doWhile body _ => body.labels
  | .forLoop init _ _ body => branchLabels init ++ body.labels
  | .switch _ cases default => caseLabels cases ++ partLabels default
  | .tryCatch body catches cleanup =>
    allLabels body ++ (catchLabels catches ++ partLabels cleanup)
  | .declare _ | .expression _ | .print _ _ _ | .returns _ _ | .breaks | .continues | .empty => []

def allLabels : List Stmt → List Expr
  | [] => []
  | first :: rest => first.labels ++ allLabels rest

def branchLabels : Option Stmt → List Expr
  | none => []
  | some branch => branch.labels

def partLabels : Option (List Stmt) → List Expr
  | none => []
  | some body => allLabels body

def caseLabels : List (SwitchCase Stmt) → List Expr
  | [] => []
  | ⟨value, body⟩ :: rest => value :: (allLabels body ++ caseLabels rest)

def catchLabels : List (CatchClause Stmt) → List Expr
  | [] => []
  | ⟨_, _, body, _⟩ :: rest => allLabels body ++ catchLabels rest

end

@[simp] theorem assignedIn_nil : assignedIn [] = [] := rfl

@[simp] theorem assignedIn_cons (e : Expr) (rest : List Expr) :
    assignedIn (e :: rest) = e.assigned ++ assignedIn rest := List.flatMap_cons

@[simp] theorem assignedIn_append (list more : List Expr) :
    assignedIn (list ++ more) = assignedIn list ++ assignedIn more := List.flatMap_append

/-- What these expressions assign is assigned in one of the two places. -/
def Parted (list : List Expr) (names : List String) (labels : List Expr) : Prop :=
  ∀ name, name ∈ assignedIn list ↔ name ∈ names ∨ name ∈ assignedIn labels

namespace Parted

variable {list more labels others : List Expr} {names rest : List String}

theorem all (list : List Expr) : Parted list (assignedIn list) [] := fun name => by simp

theorem label (e : Expr) : Parted [e] [] [e] := fun name => by simp

theorem append (h : Parted list names labels) (hmore : Parted more rest others) :
    Parted (list ++ more) (names ++ rest) (labels ++ others) := by
  intro name
  simp only [assignedIn_append, List.mem_append, h name, hmore name]
  exact or_or_or_comm

theorem behind (h : Parted more rest others) (list : List Expr) :
    Parted (list ++ more) (assignedIn list ++ rest) others := (all list).append h

theorem single (e : Expr) (h : Parted more rest others) :
    Parted (e :: more) (e.assigned ++ rest) others := by
  simpa using h.behind [e]

end Parted

open Parted

mutual

/-- What a statement assigns is looked at, but not in the labels of cases. -/
theorem Stmt.parted : (s : Stmt) → Parted s.expressions s.assigned s.labels
  | .declare decl => all decl.init.toList
  | .expression e => by simpa [Stmt.expressions, Stmt.assigned, Stmt.labels] using all [e]
  | .block body => all_parted body
  | .ifElse e thenBranch none => by
      simpa [Stmt.expressions, Stmt.assigned, Stmt.labels, branchExpressions, branchLabels] using
        (Stmt.parted thenBranch).single e
  | .ifElse e thenBranch (some elseBranch) => by
      rw [Stmt.assigned, List.append_assoc]
      exact ((Stmt.parted thenBranch).append (Stmt.parted elseBranch)).single e
  | .whileLoop e body => (Stmt.parted body).single e
  | .doWhile body e => (Stmt.parted body).single e
  | .forLoop none e update body => by
      rw [Stmt.assigned, List.append_assoc]
      exact ((Stmt.parted body).behind update).behind e.toList
  | .forLoop (some init) e update body => by
      rw [Stmt.assigned, List.append_assoc, List.append_assoc]
      exact (Stmt.parted init).append (((Stmt.parted body).behind update).behind e.toList)
  | .switch e cases none => by
      simpa [Stmt.expressions, Stmt.assigned, Stmt.labels, partExpressions, partLabels] using
        (case_parted cases).single e
  | .switch e cases (some default) => by
      rw [Stmt.assigned, List.append_assoc]
      exact ((case_parted cases).append (all_parted default)).single e
  | .tryCatch body catches none => by
      simpa [Stmt.expressions, Stmt.assigned, Stmt.labels, partExpressions, partLabels] using
        (all_parted body).append (catch_parted catches)
  | .tryCatch body catches (some cleanup) => by
      rw [Stmt.assigned, List.append_assoc]
      exact (all_parted body).append ((catch_parted catches).append (all_parted cleanup))
  | .print _ args _ => all args
  | .returns value _ => all value.toList
  | .breaks | .continues | .empty => all []

theorem all_parted : (body : List Stmt) →
    Parted (allExpressions body) (allAssigned body) (allLabels body)
  | [] => all []
  | first :: rest => (Stmt.parted first).append (all_parted rest)

theorem case_parted : (cases : List (SwitchCase Stmt)) →
    Parted (caseExpressions cases) (allCaseAssigned cases) (caseLabels cases)
  | [] => all []
  | ⟨value, body⟩ :: rest => (label value).append ((all_parted body).append (case_parted rest))

theorem catch_parted : (catches : List (CatchClause Stmt)) →
    Parted (catchExpressions catches) (allCatchAssigned catches) (catchLabels catches)
  | [] => all []
  | ⟨_, _, body, _⟩ :: rest => (all_parted body).append (catch_parted rest)

end

/-- One of the variables that these expressions assign gets a value. -/
def Writes (list : List Expr) (env next : String → Option Value) : Prop :=
  ∃ name ∈ assignedIn list, ∃ value, next = Function.update env name (some value)

/-- However often variables are written, those that are not assigned hold what they held. -/
theorem Writes.kept {list : List Expr} {env later : String → Option Value}
    (h : Relation.ReflTransGen (Writes list) env later) {name : String}
    (hname : name ∉ assignedIn list) : later name = env name := by
  induction h with
  | refl => rfl
  | tail _ hwrite ih =>
      obtain ⟨target, htarget, value, rfl⟩ := hwrite
      rw [Function.update_of_ne (ne_of_mem_of_not_mem htarget hname).symm, ih]

namespace RangeLoop

variable {init body : Stmt} {condition : Option Expr} {update : List Expr} {loop : RangeLoop}

/-- The rounds of the loop assign nothing that its bound needs. -/
def Untouched (loop : RangeLoop) (update : List Expr) (body : Stmt) : Prop :=
  ∀ name ∈ loop.stop.used, name ∉ assignedIn (body.expressions ++ update)

theorem assignedIn_update {counter : String} {step : Int} (h : step? counter update = some step) :
    assignedIn update = [counter] := by
  unfold step? at h
  split at h
  · obtain ⟨rfl, -⟩ := Option.ite_none_right_eq_some.mp h
    rfl
  · obtain ⟨rfl, -⟩ := Option.ite_none_right_eq_some.mp h
    rfl
  · cases h

theorem undisturbed_iff {counter : String} {bound : Expr} :
    undisturbed counter bound body = true ↔
      counter ∉ body.assigned ∧ ∀ name ∈ bound.reads, name ∉ body.assigned := by
  simp [undisturbed]

theorem untouched_iff (h : detect? init condition update body = some loop) :
    loop.Untouched update body ↔ loop.counter ∉ loop.stop.used ∧
      (∀ name ∈ loop.stop.used, name ∉ assignedIn body.labels) ∧
      ∀ name ∈ loop.stop.revised, name ∉ body.assigned := by
  obtain ⟨-, _, _, -, -, hstep, hundisturbed⟩ := exists_of_detect h
  obtain ⟨-, hreads⟩ := undisturbed_iff.mp hundisturbed
  have hassigned (name : String) : name ∈ assignedIn (body.expressions ++ update) ↔
      (name ∈ body.assigned ∨ name ∈ assignedIn body.labels) ∨ name = loop.counter := by
    rw [assignedIn_append, List.mem_append, body.parted name, assignedIn_update hstep,
      List.mem_singleton]
  simp only [Untouched, hassigned, not_or]
  constructor
  · intro huntouched
    refine ⟨fun hmem => (huntouched _ hmem).2 rfl, fun name hmem => (huntouched name hmem).1.2,
      fun name hmem => ?_⟩
    exact (huntouched name (Expr.mem_used_iff.mpr (.inr hmem))).1.1
  · rintro ⟨hcounter, hlabels, hrevised⟩ name hmem
    refine ⟨⟨?_, hlabels name hmem⟩, ne_of_mem_of_not_mem hmem hcounter⟩
    exact (Expr.mem_used_iff.mp hmem).elim (hreads name) (hrevised name)

theorem Untouched.value?_eq (h : loop.Untouched update body) {env later : String → Option Value}
    (hwrites : Relation.ReflTransGen (Writes (body.expressions ++ update)) env later) :
    loop.stop.value? later = loop.stop.value? env :=
  loop.stop.value?_congr fun name hname =>
    Writes.kept hwrites (h name (Expr.mem_used_iff.mpr (.inl hname)))

/-- A range replaces the bound of a loop by the value that it has at first. That is the value at
every test if no round assigns what the bound needs, and this is so unless the bound reads the
counter, a label in the body assigns what it reads, or the bound itself revises what the
body assigns; the last cannot be lowered. -/
theorem bound_fixed_iff (h : detect? init condition update body = some loop) :
    (loop.Untouched update body ↔ loop.counter ∉ loop.stop.used ∧
      (∀ name ∈ loop.stop.used, name ∉ assignedIn body.labels) ∧
      ∀ name ∈ loop.stop.revised, name ∉ body.assigned) ∧
    ∀ place table out, Lowering.expr place table loop.stop = .ok out →
      loop.stop.assigned = [] ∧
      (loop.Untouched update body ↔ loop.counter ∉ loop.stop.used ∧
        ∀ name ∈ loop.stop.used, name ∉ assignedIn body.labels) ∧
      (loop.Untouched update body → ∀ env later,
        Relation.ReflTransGen (Writes (body.expressions ++ update)) env later →
          loop.stop.value? later = loop.stop.value? env) := by
  refine ⟨untouched_iff h, fun place table out hout => ?_⟩
  have hassigned := Lowering.assigned_eq_nil hout
  have hrevised : loop.stop.revised = [] :=
    List.subset_nil.mp (hassigned ▸ loop.stop.revised_subset_assigned)
  refine ⟨hassigned, ?_, fun huntouched env later => huntouched.value?_eq⟩
  rw [untouched_iff h, hrevised]
  simp

/-- The loop that adds up the integers below `n`. -/
theorem bound_fixed_below_name :
    let update : List Expr := [.step "i" .increment .behind .start]
    let body : Stmt := .block [.expression (.assign "s" (some .add) (.name "i" .start) .start)]
    let loop : RangeLoop := ⟨"i", .int, .start, .literal (.number "0") .start, .name "n" .start, 1,
      false⟩
    detect? (.declare ⟨[], ⟨"int", 0⟩, "i", some (.literal (.number "0") .start), .start⟩)
      (some (.binary .lt (.name "i" .start) (.name "n" .start))) update body = some loop ∧
    loop.Untouched update body ∧
    ∀ env later, Relation.ReflTransGen (Writes (body.expressions ++ update)) env later →
      later "n" = env "n" := by
  intro update body loop
  have hdetect : detect?
      (.declare ⟨[], ⟨"int", 0⟩, "i", some (.literal (.number "0") .start), .start⟩)
      (some (.binary .lt (.name "i" .start) (.name "n" .start))) update body = some loop := by
    decide
  obtain ⟨-, hlowered⟩ := bound_fixed_iff hdetect
  obtain ⟨-, huntouched, hkept⟩ := hlowered .outside .empty (.name "n") rfl
  have hloop : loop.Untouched update body := huntouched.mpr (by decide)
  exact ⟨hdetect, hloop, hkept hloop⟩

end RangeLoop

namespace Program

def movesBound (program : Program) : Bool :=
  match program.statements with
  | [_, .forLoop (some init) condition update body] =>
    (RangeLoop.detect? init condition update body).any fun loop =>
      loop.stop.used.contains loop.counter && (assignedIn update).contains loop.counter
  | _ => false

theorem exists_of_movesBound {program : Program} (h : program.movesBound = true) :
    ∃ first init condition update body loop,
      program.statements = [first, .forLoop (some init) condition update body] ∧
      RangeLoop.detect? init condition update body = some loop ∧
      loop.counter ∈ loop.stop.used ∧ loop.counter ∈ assignedIn update := by
  unfold movesBound at h
  split at h
  · next first init condition update body hstatements =>
      obtain ⟨loop, hdetect, hmoves⟩ := (Option.any_eq_true _ _).mp h
      simp only [Bool.and_eq_true, List.contains_iff_mem] at hmoves
      exact ⟨first, init, condition, update, body, loop, hstatements, hdetect, hmoves⟩
  · cases h

/-- The bound of this loop comes down as its counter goes up. The range keeps the bound as it is
before the first round, so Python prints a line more. -/
theorem bound_moves_with_counter :
    ∃ program text code,
      ofSource "int i = 0; for (i = 0; i < 3 - i; i++) \x7b System.out.println(i); \x7d" =
        .ok program ∧
      program.diagnostics = [] ∧
      (∃ first init condition update body loop,
        program.statements = [first, .forLoop (some init) condition update body] ∧
        RangeLoop.detect? init condition update body = some loop ∧
        loop.counter ∈ loop.stop.used ∧ loop.counter ∈ assignedIn update) ∧
      program.execution.Halts ["0", "1"] ∧
      program.toPython = .ok text ∧ Python.ReadsAs text code ∧
      (Python.execution code).Halts ["0", "1", "2"] := by
  let text := "i = 0\nfor i in range(0, 3 - i):\n    print(i)\n"
  obtain ⟨program, hsource, hclean, hmoves, hhalts, htext⟩ :=
    exists_program "int i = 0; for (i = 0; i < 3 - i; i++) \x7b System.out.println(i); \x7d"
      (fun program => program.diagnostics = [] ∧ program.movesBound = true ∧
        program.execution.haltsWithin 2 ["0", "1"] = true ∧ program.toPython = .ok text)
      (by decide +kernel)
  have hrows : Python.rowsOf text = [⟨0, "i = 0".toList⟩,
      ⟨0, "for i in range(0, 3 - i):".toList⟩, ⟨4, "print(i)".toList⟩] := by decide +kernel
  have hblock : Python.Block 0 (Python.rowsOf text) [.line "i = 0".toList,
      .clause "for i in range(0, 3 - i):".toList [.line "print(i)".toList]] :=
    hrows ▸ .line (by decide) (.clause (by decide) (.line (by decide) .nil) (List.cons_ne_nil _ _)
      .nil)
  obtain ⟨code, hread, hlonger⟩ := Python.exists_halting 3 ["0", "1", "2"] hblock (by
    simp only [Python.codeOf, Python.partsOf]
    decide +kernel)
  exact ⟨program, text, code, hsource, hclean, exists_of_movesBound hmoves,
    Execution.halts_of_within hhalts, htext, hread, hlonger⟩

end Program

end MiniJava
