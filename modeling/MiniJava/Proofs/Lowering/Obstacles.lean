import MiniJava.Proofs.Grammar.ProgramSound
import MiniJava.Proofs.Lowering.Failures

/-!
# What cannot be lowered

The constructs that a lowering reports are those of the part of a program that reaches the emitted
text: its unsigned shifts, and its assignments and steps that are no whole statement and no whole
part of a `for` header. The first of them is reported, unless an overflow is met in front of it and
cuts the lowering off.
-/

namespace MiniJava

mutual

/-- A statement without the parts that do not reach the emitted text: what stands behind the first
`break` of a label, the arguments that a print call does not show, and the updates of a counting
loop. -/
def Stmt.translated : Stmt → Stmt
  | .block body => .block (allTranslated body)
  | .ifElse e thenBranch elseBranch =>
    .ifElse e thenBranch.translated (branchTranslated elseBranch)
  | .whileLoop e body => .whileLoop e body.translated
  | .doWhile body e => .doWhile body.translated e
  | .forLoop none e update body => .forLoop none e update body.translated
  | .forLoop (some init) e update body =>
    let kept := if (RangeLoop.detect? init e update body).isSome then [] else update
    .forLoop (some init.translated) e kept body.translated
  | .switch e cases default => .switch e (casesTranslated cases) (defaultTranslated default)
  | .tryCatch body catches cleanup =>
    .tryCatch (allTranslated body) (catchesTranslated catches) (partTranslated cleanup)
  | .print kind args position => .print kind (kind.shown args) position
  | .declare decl => .declare decl
  | .expression e => .expression e
  | .returns value position => .returns value position
  | .breaks => .breaks
  | .continues => .continues
  | .empty => .empty

def allTranslated : List Stmt → List Stmt
  | [] => []
  | first :: rest => first.translated :: allTranslated rest

def branchTranslated : Option Stmt → Option Stmt
  | none => none
  | some s => some s.translated

def partTranslated : Option (List Stmt) → Option (List Stmt)
  | none => none
  | some body => some (allTranslated body)

def labelTranslated : List Stmt → List Stmt
  | [] => []
  | .breaks :: _ => [.breaks]
  | first :: rest => first.translated :: labelTranslated rest

def casesTranslated : List (SwitchCase Stmt) → List (SwitchCase Stmt)
  | [] => []
  | ⟨label, body⟩ :: rest => ⟨label, labelTranslated body⟩ :: casesTranslated rest

def defaultTranslated : Option (List Stmt) → Option (List Stmt)
  | none => none
  | some body => some (labelTranslated body)

def catchesTranslated : List (CatchClause Stmt) → List (CatchClause Stmt)
  | [] => []
  | ⟨exception, name, body, position⟩ :: rest =>
    ⟨exception, name, allTranslated body, position⟩ :: catchesTranslated rest

end

def Method.translated (decl : Method) : Method := { decl with body := allTranslated decl.body }

mutual

def classTranslated : ClassDecl → ClassDecl
  | ⟨mods, name, members, position⟩ => ⟨mods, name, membersTranslated members, position⟩

def membersTranslated : List Member → List Member
  | [] => []
  | .field decl :: rest => .field decl :: membersTranslated rest
  | .method decl :: rest => .method decl.translated :: membersTranslated rest
  | .nested decl :: rest => .nested (classTranslated decl) :: membersTranslated rest

end

def Item.translated : Item → Item
  | .declaration decl => .declaration (classTranslated decl)
  | .statement s => .statement s.translated

def Program.translated (program : Program) : Program := ⟨program.items.map Item.translated⟩

mutual

/-- The obstacles in a statement, in the order in which they are met. -/
def Stmt.obstacles : Stmt → List Untranslatable
  | .declare decl => obstaclesIn decl.init.toList
  | .expression e => e.effectObstacles
  | .block body => allObstacles body
  | .ifElse e thenBranch elseBranch =>
    e.obstacles ++ (thenBranch.obstacles ++ branchObstacles elseBranch)
  | .whileLoop e body => e.obstacles ++ body.obstacles
  | .doWhile body e => body.obstacles ++ e.obstacles
  | .forLoop init e update body =>
    branchObstacles init ++
      (obstaclesIn e.toList ++ (body.obstacles ++ update.flatMap Expr.effectObstacles))
  | .switch e cases default => e.obstacles ++ (casesObstacles cases ++ partObstacles default)
  | .tryCatch body catches cleanup =>
    allObstacles body ++ (catchesObstacles catches ++ partObstacles cleanup)
  | .print _ args _ => obstaclesIn args
  | .returns value _ => obstaclesIn value.toList
  | .breaks | .continues | .empty => []

def allObstacles : List Stmt → List Untranslatable
  | [] => []
  | first :: rest => first.obstacles ++ allObstacles rest

def branchObstacles : Option Stmt → List Untranslatable
  | none => []
  | some s => s.obstacles

def partObstacles : Option (List Stmt) → List Untranslatable
  | none => []
  | some body => allObstacles body

def casesObstacles : List (SwitchCase Stmt) → List Untranslatable
  | [] => []
  | ⟨label, body⟩ :: rest => label.obstacles ++ (allObstacles body ++ casesObstacles rest)

def catchesObstacles : List (CatchClause Stmt) → List Untranslatable
  | [] => []
  | ⟨_, _, body, _⟩ :: rest => allObstacles body ++ catchesObstacles rest

end

def fieldsObstacles : List Member → List Untranslatable
  | [] => []
  | .field decl :: rest => obstaclesIn decl.init.toList ++ fieldsObstacles rest
  | .method _ :: rest => fieldsObstacles rest
  | .nested _ :: rest => fieldsObstacles rest

mutual

def classObstacles : ClassDecl → List Untranslatable
  | ⟨_, _, members, _⟩ => fieldsObstacles members ++ membersObstacles members

def membersObstacles : List Member → List Untranslatable
  | [] => []
  | .field _ :: rest => membersObstacles rest
  | .method decl :: rest => allObstacles decl.body ++ membersObstacles rest
  | .nested decl :: rest => classObstacles decl ++ membersObstacles rest

end

def Item.obstacles : Item → List Untranslatable
  | .declaration decl => classObstacles decl
  | .statement s => s.obstacles

def Program.obstacles (program : Program) : List Untranslatable :=
  program.items.flatMap Item.obstacles

def Failure.reported? : Failure → Option Untranslatable
  | .untranslatable error => some error
  | .overflow => none

def reports (failures : List Failure) : List Untranslatable :=
  failures.filterMap Failure.reported?

@[simp] theorem reports_append (front more : List Failure) :
    reports (front ++ more) = reports front ++ reports more := List.filterMap_append

@[simp] theorem reports_reported (obstacles : List Untranslatable) :
    reports (reported obstacles) = obstacles := by
  rw [reports, reported, List.filterMap_map]
  exact List.filterMap_some

@[simp] theorem reports_overflowIf (overflows : Bool) : reports (overflowIf overflows) = [] := by
  cases overflows <;> rfl

/-- The first part of a counting loop has nothing but the start of the counter. -/
theorem counter_obstacles {init : Stmt} {counter : RangeLoop.Counter}
    (h : RangeLoop.counter? init = some counter) :
    init.translated.obstacles = counter.start.obstacles := by
  obtain ⟨decl, rfl, -, hstart, -⟩ | ⟨rfl, -⟩ := RangeLoop.counter?_cases h
  · rw [Stmt.translated, Stmt.obstacles, hstart, Option.toList_some, Lowering.obstaclesIn_single]
  · rfl

/-- The header of a counting loop has what its bounds have in front of the updates. -/
theorem header_obstacles {init body : Stmt} {e : Option Expr} {update : List Expr}
    {loop : RangeLoop} (h : RangeLoop.detect? init e update body = some loop) :
    init.translated.obstacles ++ obstaclesIn e.toList =
      loop.start.obstacles ++ loop.stop.obstacles := by
  obtain ⟨hcounter, op, position, rfl, hinclusive, -⟩ := RangeLoop.exists_of_detect h
  have hop : op ≠ .ushr := by
    rintro rfl
    cases hinclusive
  rw [counter_obstacles hcounter, Option.toList_some, Lowering.obstaclesIn_single, Expr.obstacles,
    if_neg hop]
  rfl

mutual

theorem Stmt.reports_failures : (s : Stmt) → reports s.failures = s.translated.obstacles
  | .declare decl => reports_reported _
  | .expression e => reports_reported _
  | .block body => reports_allFailures body
  | .ifElse e thenBranch elseBranch => by
      simp only [Stmt.failures, Stmt.translated, Stmt.obstacles, reports_append, reports_reported,
        thenBranch.reports_failures, reports_branchFailures elseBranch]
  | .whileLoop e body => by
      simp only [Stmt.failures, Stmt.translated, Stmt.obstacles, reports_append, reports_reported,
        body.reports_failures]
  | .doWhile body e => by
      simp only [Stmt.failures, Stmt.translated, Stmt.obstacles, reports_append, reports_reported,
        body.reports_failures]
  | .forLoop none e update body => by
      simp only [Stmt.failures, Stmt.translated, Stmt.obstacles, reports_append, reports_reported,
        body.reports_failures, branchObstacles, List.nil_append]
  | .forLoop (some init) e update body => by
      have hbody := body.reports_failures
      cases hdetect : RangeLoop.detect? init e update body with
      | none =>
          simp only [Stmt.failures, Stmt.translated, Stmt.obstacles, hdetect, reports_append,
            reports_reported, reports_overflowIf, init.reports_failures, hbody, branchObstacles,
            Option.isSome_none, Bool.false_eq_true, if_false, List.nil_append]
      | some loop =>
          -- The updates are dropped, and the header in front of them is what the bounds are.
          have hheader := header_obstacles hdetect
          simp only [Stmt.failures, Stmt.translated, Stmt.obstacles, hdetect, reports_append,
            reports_reported, reports_overflowIf, hbody, branchObstacles, Option.isSome_some,
            if_true, List.flatMap_nil, List.append_nil, List.nil_append]
          rw [← List.append_assoc, ← List.append_assoc, hheader]
  | .switch e cases default => by
      simp only [Stmt.failures, Stmt.translated, Stmt.obstacles, reports_append, reports_reported,
        reports_casesFailures cases, reports_defaultFailures default]
  | .tryCatch body catches cleanup => by
      simp only [Stmt.failures, Stmt.translated, Stmt.obstacles, reports_append,
        reports_allFailures body, reports_catchesFailures catches,
        reports_cleanupFailures cleanup]
  | .print kind args _ => reports_reported _
  | .returns value _ => reports_reported _
  | .breaks | .continues | .empty => rfl

theorem reports_allFailures :
    (body : List Stmt) → reports (allFailures body) = allObstacles (allTranslated body)
  | [] => rfl
  | first :: rest => by
      rw [allFailures, allTranslated, allObstacles, reports_append, first.reports_failures,
        reports_allFailures rest]

theorem reports_branchFailures : (branch : Option Stmt) →
    reports (branchFailures branch) = branchObstacles (branchTranslated branch)
  | none => rfl
  | some s => s.reports_failures

theorem reports_labelFailures :
    (body : List Stmt) → reports (labelFailures body) = allObstacles (labelTranslated body)
  | [] => rfl
  | first :: rest => by
      by_cases hbreak : first = .breaks
      · rw [hbreak]
        rfl
      · rw [labelFailures, labelTranslated, allObstacles, reports_append, first.reports_failures,
          reports_labelFailures rest]
        · exact hbreak
        · exact hbreak

theorem reports_casesFailures : (cases : List (SwitchCase Stmt)) →
    reports (casesFailures cases) = casesObstacles (casesTranslated cases)
  | [] => rfl
  | ⟨label, body⟩ :: rest => by
      rw [casesFailures, casesTranslated, casesObstacles, reports_append, reports_append,
        reports_reported, reports_labelFailures body, reports_casesFailures rest]

theorem reports_defaultFailures : (default : Option (List Stmt)) →
    reports (defaultFailures default) = partObstacles (defaultTranslated default)
  | none => rfl
  | some body => reports_labelFailures body

theorem reports_catchesFailures : (catches : List (CatchClause Stmt)) →
    reports (catchesFailures catches) = catchesObstacles (catchesTranslated catches)
  | [] => rfl
  | ⟨_, _, body, _⟩ :: rest => by
      rw [catchesFailures, catchesTranslated, catchesObstacles, reports_append,
        reports_allFailures body, reports_catchesFailures rest]

theorem reports_cleanupFailures : (cleanup : Option (List Stmt)) →
    reports (cleanupFailures cleanup) = partObstacles (partTranslated cleanup)
  | none => rfl
  | some body => reports_allFailures body

end

theorem reports_fieldsFailures (members : List Member) :
    reports (fieldsFailures members) = fieldsObstacles (membersTranslated members) := by
  induction members with
  | nil =>
      rw [membersTranslated]
      rfl
  | cons member rest ih =>
      cases member with
      | field decl =>
          rw [fieldsFailures, membersTranslated, fieldsObstacles, reports_append, reports_reported,
            ih]
      | method decl => rw [fieldsFailures, membersTranslated, fieldsObstacles, ih]
      | nested decl => rw [fieldsFailures, membersTranslated, fieldsObstacles, ih]

mutual

theorem reports_classFailures :
    (decl : ClassDecl) → reports (classFailures decl) = classObstacles (classTranslated decl)
  | ⟨_, _, members, _⟩ => by
      rw [classFailures, classTranslated, classObstacles, reports_append,
        reports_fieldsFailures members, reports_membersFailures members]

theorem reports_membersFailures : (members : List Member) →
    reports (membersFailures members) = membersObstacles (membersTranslated members)
  | [] => by
      rw [membersFailures, membersTranslated, membersObstacles]
      rfl
  | .field _ :: rest => by
      rw [membersFailures, membersTranslated, membersObstacles, reports_membersFailures rest]
  | .method decl :: rest => by
      rw [membersFailures, membersTranslated, membersObstacles, reports_append,
        reports_allFailures decl.body, reports_membersFailures rest]
      rfl
  | .nested decl :: rest => by
      rw [membersFailures, membersTranslated, membersObstacles, reports_append,
        reports_classFailures decl, reports_membersFailures rest]

end

theorem Item.reports_failures (i : Item) : reports i.failures = i.translated.obstacles := by
  cases i with
  | declaration decl => exact reports_classFailures decl
  | statement s => exact s.reports_failures

namespace Program

open Lowering

theorem reports_failures (program : Program) :
    reports program.failures = program.translated.obstacles := by
  obtain ⟨items⟩ := program
  induction items with
  | nil => rfl
  | cons first rest ih =>
      have hrest : reports (rest.flatMap Item.failures) =
          (rest.map Item.translated).flatMap Item.obstacles := ih
      have hfirst := first.reports_failures
      simp only [failures, translated, obstacles, List.flatMap_cons, List.map_cons, reports_append,
        hfirst, hrest]

/-- A program fails to be lowered with an error exactly if its translated part has an obstacle and
no overflow is met in front of all obstacles, and then the first obstacle is reported. An overflow
that is met first ends the lowering without an error. -/
theorem untranslatable_iff (program : Program) :
    ((∃ error, program.toPython = .error (.untranslatable error)) ↔
        program.translated.obstacles ≠ [] ∧ program.failures.head? ≠ some .overflow) ∧
      (program.toPython = .error .overflow ↔ program.failures.head? = some .overflow) ∧
      ∀ error, program.toPython = .error (.untranslatable error) →
        program.translated.obstacles.head? = some error := by
  have hblocked := program.toPython_blocked
  rw [← program.reports_failures]
  cases hfailures : program.failures with
  | nil =>
      rw [hfailures] at hblocked
      obtain ⟨text, htext⟩ := hblocked
      simp [htext, reports]
  | cons first more =>
      rw [hfailures] at hblocked
      have herror : program.toPython = .error first := hblocked
      cases first with
      | untranslatable error => simp [herror, reports, Failure.reported?]
      | overflow => simp [herror]

/-- The end of the first loop's range has no 64-bit integer, so the step inside the last value is
not reported. -/
theorem step_not_reported :
    ∃ program, ofSource
        "for (int i = 0; i <= 9223372036854775807; i++) \x7b \x7d int k = 0; int j = k++;" =
          .ok program ∧
      program.translated.obstacles = [⟨.embeddedStep .increment, ⟨1, 71⟩⟩] ∧
      program.toPython = .error .overflow :=
  exists_program _ (fun program =>
    program.translated.obstacles = [⟨.embeddedStep .increment, ⟨1, 71⟩⟩] ∧
      program.toPython = .error .overflow) (by decide +kernel)

end Program

end MiniJava
