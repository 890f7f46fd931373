import MiniJava.Proofs.Lowering.Meanings
import MiniJava.Proofs.Lowering.Yields

/-!
# Where lowerings fail

What a program fails on is read off the program: an unsigned shift, an assignment or a step that is
not a whole statement or a whole part of a `for` header, and a step or an end of a range that
overflows. These are listed in the order in which a lowering comes to them. The lowering fails with
the first of them, and it has a result if there are none.
-/

namespace MiniJava

namespace Expr

/-- The unsigned shifts, assignments and steps in an expression that is a part of another one or of
a statement, where they are reported. -/
def obstacles : Expr → List Untranslatable
  | .literal _ _ | .name _ _ => []
  | .unary _ operand => operand.obstacles
  | .binary op lhs rhs =>
    (if op = .ushr then [⟨.unsignedShift, lhs.position⟩] else []) ++
      (lhs.obstacles ++ rhs.obstacles)
  | .assign _ _ value position => ⟨.embeddedAssignment, position⟩ :: value.obstacles
  | .step _ op _ position => [⟨.embeddedStep op, position⟩]

def effectObstacles : Expr → List Untranslatable
  | .assign _ op value position =>
    (if op = some .ushr then [⟨.unsignedShiftAssignment, position⟩] else []) ++ value.obstacles
  | .step _ _ _ _ => []
  | e => e.obstacles

end Expr

def obstaclesIn (list : List Expr) : List Untranslatable := list.flatMap Expr.obstacles

def reported (obstacles : List Untranslatable) : List Failure := obstacles.map .untranslatable

def overflowIf (overflows : Bool) : List Failure := if overflows then [.overflow] else []

mutual

/-- What a statement fails on. What does not reach the emitted text fails on nothing: the statements
behind the first `break` of a label, the arguments that a print call does not show, and the updates
of a counting loop. -/
def Stmt.failures : Stmt → List Failure
  | .declare decl => reported (obstaclesIn decl.init.toList)
  | .expression e => reported e.effectObstacles
  | .block body => allFailures body
  | .ifElse e thenBranch elseBranch =>
    reported e.obstacles ++ (thenBranch.failures ++ branchFailures elseBranch)
  | .whileLoop e body => reported e.obstacles ++ body.failures
  | .doWhile body e => body.failures ++ reported e.obstacles
  | .forLoop none e update body =>
    reported (obstaclesIn e.toList) ++
      (body.failures ++ reported (update.flatMap Expr.effectObstacles))
  | .forLoop (some init) e update body =>
    match RangeLoop.detect? init e update body with
    | some loop =>
      reported loop.start.obstacles ++ (reported loop.stop.obstacles ++
        (overflowIf loop.endOverflows ++ body.failures))
    | none =>
      overflowIf (RangeLoop.headerOverflows init e update) ++ (init.failures ++
        (reported (obstaclesIn e.toList) ++
          (body.failures ++ reported (update.flatMap Expr.effectObstacles))))
  | .switch e cases default =>
    reported e.obstacles ++ (casesFailures cases ++ defaultFailures default)
  | .tryCatch body catches cleanup =>
    allFailures body ++ (catchesFailures catches ++ cleanupFailures cleanup)
  | .print kind args _ => reported (obstaclesIn (kind.shown args))
  | .returns value _ => reported (obstaclesIn value.toList)
  | .breaks | .continues | .empty => []

def allFailures : List Stmt → List Failure
  | [] => []
  | first :: rest => first.failures ++ allFailures rest

def branchFailures : Option Stmt → List Failure
  | none => []
  | some s => s.failures

def labelFailures : List Stmt → List Failure
  | [] => []
  | .breaks :: _ => []
  | first :: rest => first.failures ++ labelFailures rest

def casesFailures : List (SwitchCase Stmt) → List Failure
  | [] => []
  | ⟨label, body⟩ :: rest => reported label.obstacles ++ (labelFailures body ++ casesFailures rest)

def defaultFailures : Option (List Stmt) → List Failure
  | none => []
  | some body => labelFailures body

def catchesFailures : List (CatchClause Stmt) → List Failure
  | [] => []
  | ⟨_, _, body, _⟩ :: rest => allFailures body ++ catchesFailures rest

def cleanupFailures : Option (List Stmt) → List Failure
  | none => []
  | some body => allFailures body

end

def fieldsFailures : List Member → List Failure
  | [] => []
  | .field decl :: rest => reported (obstaclesIn decl.init.toList) ++ fieldsFailures rest
  | .method _ :: rest => fieldsFailures rest
  | .nested _ :: rest => fieldsFailures rest

mutual

def classFailures : ClassDecl → List Failure
  | ⟨_, _, members, _⟩ => fieldsFailures members ++ membersFailures members

def membersFailures : List Member → List Failure
  | [] => []
  | .field _ :: rest => membersFailures rest
  | .method decl :: rest => allFailures decl.body ++ membersFailures rest
  | .nested decl :: rest => classFailures decl ++ membersFailures rest

end

def Item.failures : Item → List Failure
  | .declaration decl => classFailures decl
  | .statement s => s.failures

def Program.failures (program : Program) : List Failure := program.items.flatMap Item.failures

theorem mem_overflowIf {overflows : Bool} : .overflow ∈ overflowIf overflows ↔ overflows = true := by
  cases overflows <;> simp [overflowIf]

theorem reported_append (front more : List Untranslatable) :
    reported (front ++ more) = reported front ++ reported more := List.map_append

namespace Lowering

variable {α β : Type}

/-- The result is the first of the failures, or a value if there are none. -/
def BlockedBy (result : Except Failure α) : List Failure → Prop
  | [] => ∃ a, result = .ok a
  | failure :: _ => result = .error failure

theorem BlockedBy.bind {result : Except Failure α} {next : α → Except Failure β}
    {first second : List Failure} (h : BlockedBy result first)
    (hnext : ∀ a, BlockedBy (next a) second) : BlockedBy (result >>= next) (first ++ second) := by
  cases first with
  | nil =>
      obtain ⟨a, rfl⟩ := h
      exact hnext a
  | cons failure more =>
      obtain rfl : result = .error failure := h
      rfl

theorem BlockedBy.map {result : Except Failure α} {failures : List Failure}
    {f : α → β} (h : BlockedBy result failures) : BlockedBy (result.map f) failures := by
  cases failures with
  | nil =>
      obtain ⟨a, rfl⟩ := h
      exact ⟨f a, rfl⟩
  | cons failure more =>
      obtain rfl : result = .error failure := h
      rfl

theorem BlockedBy.last {result : Except Failure α} {failures : List Failure}
    {f : α → β} (h : BlockedBy result failures) :
    BlockedBy (result >>= fun a => Pure.pure (f a)) failures :=
  failures.append_nil ▸ h.bind fun a => ⟨f a, rfl⟩

/-- The action fails with the first of the failures, or has a result if there are none, whatever is
in scope. -/
def Refuses (action : Lowering α) (failures : List Failure) : Prop :=
  ∀ table, BlockedBy (action.outcome table).1 failures

namespace Refuses

theorem pure (a : α) : Refuses (Pure.pure a) [] := fun _ => ⟨a, rfl⟩

theorem throw (failure : Failure) (more : List Failure) :
    Refuses (MonadExcept.throw failure : Lowering α) (failure :: more) := fun _ => rfl

theorem refuseOverflow (overflows : Bool) :
    Refuses (Lowering.refuseOverflow overflows) (overflowIf overflows) := by
  cases overflows with
  | false => exact pure ()
  | true => exact throw .overflow []

theorem bind {action : Lowering α} {next : α → Lowering β} {first second : List Failure}
    (h : Refuses action first) (hnext : ∀ a, Refuses (next a) second) :
    Refuses (action >>= next) (first ++ second) := by
  intro table
  have hblocked := h table
  rw [outcome_bind]
  generalize action.outcome table = out at hblocked ⊢
  obtain ⟨result, between⟩ := out
  cases first with
  | nil =>
      obtain ⟨a, rfl⟩ := hblocked
      exact hnext a between
  | cons failure more =>
      obtain rfl : result = .error failure := hblocked
      rfl

theorem before {action : Lowering α} {next : α → Lowering β} {failures : List Failure}
    (h : Refuses action failures) (hnext : ∀ a, Refuses (next a) []) :
    Refuses (action >>= next) failures := failures.append_nil ▸ h.bind hnext

/-- The last part of an action is put into its result. -/
theorem last {action : Lowering α} {failures : List Failure} {f : α → β}
    (h : Refuses action failures) : Refuses (action >>= fun a => Pure.pure (f a)) failures :=
  h.before fun a => pure (f a)

theorem inScope {action : Lowering α} {failures : List Failure}
    (h : Refuses action failures) : Refuses (Lowering.inScope action) failures :=
  fun table => h table.enter

theorem get : Refuses (MonadState.get : Lowering SymbolTable) [] := fun table => ⟨table, rfl⟩

theorem declare (name : String) (type : ValueType) (position : Position) :
    Refuses (Lowering.declare name type position) [] := fun _ => ⟨(), rfl⟩

theorem reference (place : Place) (name : String) : Refuses (Lowering.reference place name) [] :=
  fun table => ⟨place.reference table name, rfl⟩

theorem typeOf (e : Expr) : Refuses (Lowering.typeOf e) [] := fun table => ⟨table.typeOf e, rfl⟩

end Refuses

theorem operator?_eq_none_iff {lhs rhs : Option ValueType} {op : BinaryOp} :
    operator? lhs rhs op = none ↔ op = .ushr := by cases op <;> simp [operator?]

theorem expr_blocked (place : Place) (table : SymbolTable) (e : Expr) :
    BlockedBy (expr place table e) (reported e.obstacles) := by
  induction e with
  | literal value position => exact ⟨_, rfl⟩
  | name name position => exact ⟨_, rfl⟩
  | unary op operand ih =>
      rw [expr, Expr.obstacles]
      exact ih.last
  | binary op lhs rhs ihl ihr =>
      rw [expr, Expr.obstacles]
      split
      · next hnone =>
          rw [if_pos (operator?_eq_none_iff.mp hnone)]
          rfl
      · next operator hoperator =>
          have hop : op ≠ .ushr := by
            rintro rfl
            cases hoperator
          rw [if_neg hop, List.nil_append, reported_append]
          exact ihl.bind fun left => ihr.last
  | assign target op value position ih => rfl
  | step target op form position => rfl

theorem value_refuses (place : Place) (e : Expr) : Refuses (value place e) (reported e.obstacles) :=
  fun table => expr_blocked place table e

theorem values_refuses (place : Place) (list : List Expr) :
    Refuses (values place list) (reported (obstaclesIn list)) := by
  induction list with
  | nil => exact .pure []
  | cons first rest ih =>
      rw [values, obstaclesIn, List.flatMap_cons, reported_append]
      exact (value_refuses place first).bind fun _ => ih.last

theorem obstaclesIn_single (e : Expr) : obstaclesIn [e] = e.obstacles := List.append_nil _

theorem initial_refuses (place : Place) (decl : VarDecl) :
    Refuses (initial place decl) (reported (obstaclesIn decl.init.toList)) := by
  rw [initial]
  cases decl.init with
  | none => exact .pure _
  | some init =>
      rw [Option.toList_some, obstaclesIn_single]
      exact value_refuses place init

theorem loopCondition_refuses (place : Place) (e : Option Expr) :
    Refuses (loopCondition place e) (reported (obstaclesIn e.toList)) := by
  cases e with
  | none => exact .pure _
  | some e =>
      rw [Option.toList_some, obstaclesIn_single]
      exact value_refuses place e

theorem format_refuses (place : Place) (e : Expr) :
    Refuses (format place e) (reported e.obstacles) := by
  unfold format
  split
  · exact .pure _
  · exact value_refuses place e

theorem print_refuses (place : Place) (kind : PrintKind) (args : List Expr) :
    Refuses (print place kind args) (reported (obstaclesIn (kind.shown args))) := by
  unfold print
  split
  · exact .pure _
  · next first rest =>
      have hparts : reported (obstaclesIn (PrintKind.printf.shown (first :: rest))) =
          reported first.obstacles ++ reported (obstaclesIn rest) := reported_append _ _
      rw [hparts]
      exact (format_refuses place _).bind fun _ => (values_refuses place _).last
  · exact (values_refuses place _).last
  · exact (values_refuses place _).last

theorem effect_refuses (place : Place) (e : Expr) :
    Refuses (effect place e) (reported e.effectObstacles) := by
  cases e with
  | assign target op value position =>
      cases op with
      | none =>
          rw [effect]
          exact (value_refuses place value).before fun _ => (Refuses.reference place target).last
      | some op =>
          by_cases hop : op = .ushr
          · rw [hop]
            exact .throw _ _
          · have heq : some op ≠ some .ushr := fun heq => hop (Option.some.inj heq)
            rw [effect, Expr.effectObstacles, if_neg heq]
            · refine (Refuses.typeOf _).bind fun _ => (Refuses.typeOf value).bind fun _ => ?_
              exact (value_refuses place value).before fun _ =>
                (Refuses.reference place target).last
            · exact hop
  | step target op form position => exact (Refuses.reference place target).last
  | _ => exact (value_refuses place _).last

theorem effects_refuses (place : Place) (list : List Expr) :
    Refuses (effects place list) (reported (list.flatMap Expr.effectObstacles)) := by
  induction list with
  | nil => exact .pure []
  | cons first rest ih =>
      rw [effects, List.flatMap_cons, reported_append]
      exact (effect_refuses place first).bind fun _ => ih.last

theorem rangeBounds_refuses (place : Place) (loop : RangeLoop) :
    Refuses (rangeBounds place loop) (reported loop.start.obstacles ++
      (reported loop.stop.obstacles ++ overflowIf loop.endOverflows)) := by
  refine (value_refuses place loop.start).bind fun _ => ?_
  refine (value_refuses place loop.stop).bind fun _ => ?_
  exact (Refuses.refuseOverflow _).before fun _ => (Refuses.declare _ _ _).last

/-- A body and the updates behind it. -/
theorem round_refuses (place : Place) {body : Stmt} {failures : List Failure}
    (h : Refuses (stmt place true body) failures) (update : List Expr) :
    Refuses (inScope do return (← stmt place true body) ++ (← effects place update))
      (failures ++ reported (update.flatMap Expr.effectObstacles)) :=
  Refuses.inScope (h.bind fun _ => (effects_refuses place update).last)

mutual

theorem stmt_refuses (place : Place) (shared : Bool) :
    (s : Stmt) → Refuses (stmt place shared s) s.failures
  | .declare decl => by
      rw [stmt, Stmt.failures]
      refine (initial_refuses place decl).before fun _ => ?_
      exact (Refuses.declare _ _ _).bind fun _ => (Refuses.reference place _).last
  | .expression e => by
      rw [stmt, Stmt.failures]
      exact effect_refuses place e
  | .block body => by
      have hbody := stmts_refuse place body
      rw [Stmt.failures]
      cases shared with
      | true => rwa [stmt, if_pos rfl]
      | false =>
          rw [stmt, if_neg Bool.false_ne_true]
          exact hbody.inScope
  | .ifElse e thenBranch elseBranch => by
      have hthen := (stmt_refuses place true thenBranch).inScope
      have helse := alternative_refuses place elseBranch
      rw [stmt, Stmt.failures]
      exact (value_refuses place e).bind fun _ => hthen.bind fun _ => helse.last
  | .whileLoop e body => by
      have hbody := (stmt_refuses place true body).inScope
      rw [stmt, Stmt.failures]
      exact (value_refuses place e).bind fun _ => hbody.last
  | .doWhile body e => by
      have hbody := stmt_refuses place true body
      rw [stmt, Stmt.failures]
      exact Refuses.last (hbody.bind fun _ => (value_refuses place e).last).inScope
  | .forLoop none e update body => by
      have hround := round_refuses place (stmt_refuses place true body) update
      rw [stmt, Stmt.failures]
      exact Refuses.inScope ((loopCondition_refuses place e).bind fun _ => hround.last)
  | .forLoop (some init) e update body => by
      have hinit := stmt_refuses place false init
      have hbody := stmt_refuses place true body
      rw [stmt, Stmt.failures]
      apply Refuses.inScope
      cases RangeLoop.detect? init e update body with
      | none =>
          have hround := round_refuses place hbody update
          exact (Refuses.refuseOverflow _).bind fun _ => hinit.bind fun _ =>
            (loopCondition_refuses place e).bind fun _ => hround.last
      | some loop =>
          dsimp only
          rw [← List.append_assoc (reported loop.stop.obstacles), ← List.append_assoc]
          refine (rangeBounds_refuses place loop).bind fun bounds => ?_
          exact (Refuses.reference place loop.counter).bind fun _ => hbody.inScope.last
  | .switch scrutinee cases default => by
      have hcases := groups_refuse place cases
      have hdefault := defaultBody_refuses place default
      rw [stmt, Stmt.failures]
      exact (value_refuses place scrutinee).bind fun subject =>
        (hcases subject none).bind fun _ => hdefault.last
  | .tryCatch body catches cleanup => by
      have hbody := (stmts_refuse place body).inScope
      have hcatches := handlers_refuse place catches
      have hcleanup := cleanupBody_refuses place cleanup
      rw [stmt, Stmt.failures]
      exact hbody.bind fun _ => hcatches.bind fun _ => hcleanup.last
  | .print kind args _ => by
      rw [stmt, Stmt.failures]
      exact print_refuses place kind args
  | .returns none _ => by
      rw [stmt]
      exact .pure _
  | .returns (some e) _ => by
      rw [stmt, Stmt.failures, Option.toList_some, obstaclesIn_single]
      exact (value_refuses place e).last
  | .breaks | .continues | .empty => by
      rw [stmt]
      exact .pure _

theorem stmts_refuse (place : Place) :
    (body : List Stmt) → Refuses (stmts place body) (allFailures body)
  | [] => by
      rw [stmts]
      exact .pure _
  | first :: rest => by
      have hfirst := stmt_refuses place false first
      have hrest := stmts_refuse place rest
      rw [stmts, allFailures]
      exact hfirst.bind fun _ => hrest.last

theorem alternative_refuses (place : Place) : (branch : Option Stmt) →
    Refuses (alternative place branch) (branchFailures branch)
  | none => by
      rw [alternative]
      exact .pure _
  | some branch => by
      have hbranch := (stmt_refuses place true branch).inScope
      rw [branchFailures]
      cases branch with
      | ifElse e thenBranch elseBranch =>
          have hthen := (stmt_refuses place true thenBranch).inScope
          have helse := alternative_refuses place elseBranch
          rw [alternative, Stmt.failures]
          exact (value_refuses place e).bind fun _ => hthen.bind fun _ => helse.last
      | _ =>
          rw [alternative]
          · exact hbranch.last
          · nofun

theorem caseBody_refuses (place : Place) :
    (body : List Stmt) → Refuses (caseBody place body) (labelFailures body)
  | [] => by
      rw [caseBody]
      exact .pure _
  | first :: rest => by
      have hfirst := stmt_refuses place false first
      have hrest := caseBody_refuses place rest
      by_cases hbreak : first = .breaks
      · rw [hbreak, caseBody]
        exact .pure _
      · rw [caseBody, labelFailures]
        · exact hfirst.bind fun _ => hrest.last
        · exact hbreak
        · exact hbreak

theorem groups_refuse (place : Place) : (cases : List (SwitchCase Stmt)) →
    ∀ (subject : Target.Expr) (pending : Option Target.Expr),
      Refuses (groups place subject pending cases) (casesFailures cases)
  | [], subject, pending => by
      rw [groups]
      exact .pure _
  | ⟨label, body⟩ :: rest, subject, pending => by
      have hbody := (caseBody_refuses place body).inScope
      have hrest := groups_refuse place rest subject
      rw [groups, casesFailures]
      refine (value_refuses place label).bind fun value => ?_
      -- A label without statements joins the next one, and its value is lowered all the same.
      by_cases hempty : body.isEmpty
      · rw [if_pos hempty, List.isEmpty_iff.mp hempty]
        exact hrest (some (matching subject pending value))
      · rw [if_neg hempty]
        exact hbody.bind fun _ => (hrest none).last

theorem defaultBody_refuses (place : Place) : (default : Option (List Stmt)) →
    Refuses (defaultBody place default) (defaultFailures default)
  | none => by
      rw [defaultBody]
      exact .pure _
  | some body => by
      rw [defaultBody, defaultFailures]
      exact (caseBody_refuses place body).inScope.last

theorem handlers_refuse (place : Place) : (catches : List (CatchClause Stmt)) →
    Refuses (handlers place catches) (catchesFailures catches)
  | [] => by
      rw [handlers]
      exact .pure _
  | ⟨exception, name, body, position⟩ :: rest => by
      have hbody := stmts_refuse place body
      have hrest := handlers_refuse place rest
      rw [handlers, catchesFailures]
      exact (Refuses.inScope ((Refuses.declare _ _ _).bind fun _ => hbody)).bind fun _ => hrest.last

theorem cleanupBody_refuses (place : Place) : (cleanup : Option (List Stmt)) →
    Refuses (cleanupBody place cleanup) (cleanupFailures cleanup)
  | none => by
      rw [cleanupBody]
      exact .pure _
  | some body => by
      rw [cleanupBody, cleanupFailures]
      exact (stmts_refuse place body).inScope.last

end

theorem declareParams_refuse (params : List Param) : Refuses (declareParams params) [] := by
  induction params with
  | nil => exact .pure _
  | cons param rest ih => exact (Refuses.declare _ _ _).bind fun _ => ih

theorem method_refuses (place : Place) (decl : Method) :
    Refuses (method place decl) (allFailures decl.body) := by
  have hbody := stmts_refuse { place with method := some (kindOf decl) } decl.body
  have hscope := ((declareParams_refuse decl.params).bind fun _ => hbody).inScope
  exact hscope.last

theorem fields_refuse (place : Place) (members : List Member) :
    Refuses (fields place members) (fieldsFailures members) := by
  induction members with
  | nil =>
      exact .pure _
  | cons member rest ih =>
      cases member with
      | field decl =>
          rw [fields, fieldsFailures]
          refine (initial_refuses place decl).bind fun _ => ?_
          exact (Refuses.declare _ _ _).bind fun _ => ih.last
      | method decl =>
          rw [fields, fieldsFailures]
          exact ih
      | nested decl =>
          rw [fields, fieldsFailures]
          exact ih

mutual

theorem classDecl_refuses : (decl : ClassDecl) →
    Refuses (classDecl decl) (classFailures decl)
  | ⟨mods, name, members, position⟩ => by
      rw [classDecl, classFailures]
      refine Refuses.inScope (Refuses.get.bind fun table => ?_)
      exact (fields_refuse _ members).bind fun _ => (definitions_refuse _ members).last

theorem definitions_refuse (place : Place) : (members : List Member) →
    Refuses (definitions place members) (membersFailures members)
  | [] => by
      rw [definitions, membersFailures]
      exact .pure _
  | .field decl :: rest => by
      rw [definitions, membersFailures]
      exact definitions_refuse place rest
  | .method decl :: rest => by
      rw [definitions, membersFailures]
      exact (method_refuses place decl).bind fun _ => (definitions_refuse place rest).last
  | .nested decl :: rest => by
      rw [definitions, membersFailures]
      exact (classDecl_refuses decl).bind fun _ => (definitions_refuse place rest).last

end

theorem item_refuses (i : Item) : Refuses (item i) i.failures := by
  cases i with
  | declaration decl => exact (classDecl_refuses decl).last
  | statement s => exact (stmt_refuses .outside false s).last

theorem items_refuse (list : List Item) :
    Refuses (items list) (list.flatMap Item.failures) := by
  induction list with
  | nil => exact .pure _
  | cons first rest ih =>
      rw [items, List.flatMap_cons]
      exact (item_refuses first).bind fun _ => ih.last

end Lowering

namespace Program

open Lowering

theorem toPython_blocked (program : Program) : BlockedBy program.toPython program.failures := by
  have hitems : BlockedBy ((Lowering.items program.items).outcome .empty).1 program.failures :=
    items_refuse program.items .empty
  exact hitems.map.map

end Program

end MiniJava
