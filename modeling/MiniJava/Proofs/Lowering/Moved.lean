import MiniJava.Lowering.Program
import MiniJava.Proofs.Lowering.Inversion
import MiniJava.Proofs.Scope.Moved

/-!
# Lowering does not look at positions

Lowering a program whose positions have been moved gives the same Python module, or fails with the
same construct at the moved position. Moving the positions in a table does not change what follows
either, so each step of a lowering can be made before or after the move.
-/

namespace MiniJava

variable (f : Position → Position)

def Untranslatable.moved (error : Untranslatable) : Untranslatable :=
  { error with position := f error.position }

def Failure.moved : Failure → Failure
  | .untranslatable error => .untranslatable (error.moved f)
  | .overflow => .overflow

theorem Place.reference_moved (place : Place) (table : SymbolTable) (name : String) :
    place.reference (table.moved f) name = place.reference table name := by
  have hholder : place.fieldHolder? (table.moved f) name = place.fieldHolder? table name := by
    unfold fieldHolder?
    rw [SymbolTable.resolve?_moved]
    cases place.enclosing with
    | none => rfl
    | some cls =>
        cases table.resolve? name with
        | none => rfl
        | some found => cases place.method <;> rfl
  rw [reference, reference, hholder]

theorem Expr.assigned_moved (e : Expr) : (e.moved f).assigned = e.assigned := by
  induction e with
  | binary op lhs rhs ihl ihr => rw [moved, assigned, assigned, ihl, ihr]
  | unary op operand ih => exact ih
  | assign target op value position ih => rw [moved, assigned, assigned, ih]
  | _ => rfl

theorem Expr.reads_moved (e : Expr) : (e.moved f).reads = e.reads := by
  induction e with
  | binary op lhs rhs ihl ihr => rw [moved, reads, reads, ihl, ihr]
  | unary op operand ih => exact ih
  | assign target op value position ih => exact ih
  | _ => rfl

theorem assignedIn_map_moved (exprs : List Expr) :
    assignedIn (exprs.map (Expr.moved f)) = assignedIn exprs := by
  induction exprs with
  | nil => rfl
  | cons first rest ih =>
      change (first.moved f).assigned ++ assignedIn (rest.map (Expr.moved f)) = _
      rw [Expr.assigned_moved, ih]
      rfl

theorem assignedIn_toList_moved (e : Option Expr) :
    assignedIn (e.map (Expr.moved f)).toList = assignedIn e.toList := by
  rw [Option.toList_map]
  exact assignedIn_map_moved f _

mutual

theorem Stmt.assigned_moved : (s : Stmt) → (s.moved f).assigned = s.assigned
  | .declare decl => assignedIn_toList_moved f decl.init
  | .expression e => Expr.assigned_moved f e
  | .block body => allAssigned_moved body
  | .ifElse e thenBranch none => by
      rw [Stmt.moved, branchMoved, Stmt.assigned, Stmt.assigned, Expr.assigned_moved,
        thenBranch.assigned_moved]
  | .ifElse e thenBranch (some elseBranch) => by
      rw [Stmt.moved, branchMoved, Stmt.assigned, Stmt.assigned, Expr.assigned_moved,
        thenBranch.assigned_moved, elseBranch.assigned_moved]
  | .whileLoop e body => by
      rw [Stmt.moved, Stmt.assigned, Stmt.assigned, Expr.assigned_moved, body.assigned_moved]
  | .doWhile body e => by
      rw [Stmt.moved, Stmt.assigned, Stmt.assigned, Expr.assigned_moved, body.assigned_moved]
  | .forLoop none e update body => by
      rw [Stmt.moved, branchMoved, Stmt.assigned, Stmt.assigned, assignedIn_toList_moved,
        assignedIn_map_moved, body.assigned_moved]
  | .forLoop (some init) e update body => by
      rw [Stmt.moved, branchMoved, Stmt.assigned, Stmt.assigned, assignedIn_toList_moved,
        assignedIn_map_moved, init.assigned_moved, body.assigned_moved]
  | .switch e cases none => by
      rw [Stmt.moved, partMoved, Stmt.assigned, Stmt.assigned, Expr.assigned_moved,
        allCaseAssigned_moved cases]
  | .switch e cases (some default) => by
      rw [Stmt.moved, partMoved, Stmt.assigned, Stmt.assigned, Expr.assigned_moved,
        allCaseAssigned_moved cases, allAssigned_moved default]
  | .tryCatch body catches none => by
      rw [Stmt.moved, partMoved, Stmt.assigned, Stmt.assigned, allAssigned_moved body,
        allCatchAssigned_moved catches]
  | .tryCatch body catches (some cleanup) => by
      rw [Stmt.moved, partMoved, Stmt.assigned, Stmt.assigned, allAssigned_moved body,
        allCatchAssigned_moved catches, allAssigned_moved cleanup]
  | .print _ args _ => assignedIn_map_moved f args
  | .returns value _ => assignedIn_toList_moved f value
  | .breaks | .continues | .empty => rfl

theorem allAssigned_moved : (list : List Stmt) → allAssigned (allMoved f list) = allAssigned list
  | [] => rfl
  | first :: rest => by
      rw [allMoved, allAssigned, allAssigned, first.assigned_moved, allAssigned_moved rest]

theorem allCaseAssigned_moved : (list : List (SwitchCase Stmt)) →
    allCaseAssigned (casesMoved f list) = allCaseAssigned list
  | [] => rfl
  | ⟨_, body⟩ :: rest => by
      rw [casesMoved, allCaseAssigned, allCaseAssigned, allAssigned_moved body,
        allCaseAssigned_moved rest]

theorem allCatchAssigned_moved : (list : List (CatchClause Stmt)) →
    allCatchAssigned (catchesMoved f list) = allCatchAssigned list
  | [] => rfl
  | ⟨_, _, body, _⟩ :: rest => by
      rw [catchesMoved, allCatchAssigned, allCatchAssigned, allAssigned_moved body,
        allCatchAssigned_moved rest]

end

namespace RangeLoop

def moved (loop : RangeLoop) : RangeLoop :=
  { loop with
    position := f loop.position
    start := loop.start.moved f
    stop := loop.stop.moved f }

def Counter.moved (counter : Counter) : Counter :=
  { counter with position := f counter.position, start := counter.start.moved f }

theorem counter?_moved (init : Stmt) :
    counter? (init.moved f) = (counter? init).map (Counter.moved f) := by
  cases init with
  | declare decl =>
      rw [Stmt.moved, counter?, counter?]
      by_cases h : (ValueType.ofTypeName decl.type).isIntegral = true
      · have hmoved : (ValueType.ofTypeName (decl.moved f).type).isIntegral = true := h
        rw [if_pos h, if_pos hmoved, VarDecl.moved, Option.map_map, Option.map_map]
        rfl
      · have hmoved : ¬ (ValueType.ofTypeName (decl.moved f).type).isIntegral = true := h
        rw [if_neg h, if_neg hmoved]
        rfl
  | expression e =>
      cases e with
      | assign target op value position => cases op <;> rfl
      | _ => rfl
  | _ => rfl

theorem bound?_moved (counter : String) (e : Expr) :
    bound? counter (e.moved f) = (bound? counter e).map (Prod.map id (Expr.moved f)) := by
  cases e with
  | binary op lhs rhs =>
      cases lhs with
      | name text position =>
          rw [Expr.moved, Expr.moved, bound?, bound?]
          split <;> rfl
      | _ => rfl
  | _ => rfl

theorem step?_moved (counter : String) (update : List Expr) :
    step? counter (update.map (Expr.moved f)) = step? counter update := by
  match update with
  | [] => rfl
  | [e] =>
      cases e with
      | assign target op value position =>
          cases op with
          | none => rfl
          | some op =>
              cases value with
              | literal value position => cases value <;> rfl
              | _ => rfl
      | _ => rfl
  | first :: second :: rest =>
      have hnone : ∀ (e other : Expr) (list : List Expr),
          step? counter (e :: other :: list) = none := by
        intro e other list
        unfold step?
        split <;> simp_all
      rw [List.map_cons, List.map_cons, hnone, hnone]

theorem undisturbed_moved (counter : String) (bound : Expr) (body : Stmt) :
    undisturbed counter (bound.moved f) (body.moved f) = undisturbed counter bound body := by
  rw [undisturbed, undisturbed, Stmt.assigned_moved, Expr.reads_moved]

theorem detect?_moved (init : Stmt) (condition : Option Expr) (update : List Expr) (body : Stmt) :
    detect? (init.moved f) (condition.map (Expr.moved f)) (update.map (Expr.moved f))
        (body.moved f) =
      (detect? init condition update body).map (moved f) := by
  unfold detect?
  rw [counter?_moved]
  cases counter? init with
  | none => rfl
  | some counter =>
      cases condition with
      | none => rfl
      | some e =>
          simp only [Option.map_some, Option.bind_eq_bind, Option.bind_some, bound?_moved,
            step?_moved]
          change ((bound? counter.name e).map (Prod.map id (Expr.moved f))).bind _ = _
          cases bound? counter.name e with
          | none => rfl
          | some found =>
              simp only [Option.map_some, Option.bind_some, Prod.map, id_eq]
              change (step? counter.name update).bind _ = _
              cases step? counter.name update with
              | none => rfl
              | some step =>
                  simp only [Option.bind_some]
                  cases inclusive? found.1 step with
                  | none => rfl
                  | some inclusive =>
                      simp only [Option.bind_some]
                      change (if undisturbed counter.name _ _ = true then _ else _) = _
                      rw [undisturbed_moved]
                      split <;> rfl

theorem stepOverflows_moved (counter : String) (update : List Expr) :
    stepOverflows counter (update.map (Expr.moved f)) = stepOverflows counter update := by
  match update with
  | [] => rfl
  | [e] =>
      cases e with
      | assign target op value position =>
          rcases op with _ | op
          · rfl
          · cases value with
            | literal literal place => cases op <;> cases literal <;> rfl
            | _ => cases op <;> rfl
      | _ => rfl
  | first :: second :: rest =>
      rw [List.map_cons, List.map_cons, stepOverflows, stepOverflows]
      · simp
      · simp

theorem headerOverflows_moved (init : Stmt) (condition : Option Expr) (update : List Expr) :
    headerOverflows (init.moved f) (condition.map (Expr.moved f)) (update.map (Expr.moved f)) =
      headerOverflows init condition update := by
  rw [headerOverflows, headerOverflows, counter?_moved, Option.any_map]
  cases counter? init with
  | none => rfl
  | some counter =>
      cases condition with
      | none => rfl
      | some e =>
          change ((bound? counter.name (e.moved f)).isSome && _) = _
          rw [bound?_moved, Option.isSome_map, stepOverflows_moved]
          rfl

theorem literalBound?_moved (loop : RangeLoop) :
    (loop.moved f).literalBound? = loop.literalBound? := by
  obtain ⟨counter, type, position, start, stop, step, inclusive⟩ := loop
  cases stop with
  | literal value position => cases value <;> rfl
  | _ => rfl

theorem endOverflows_moved (loop : RangeLoop) :
    (loop.moved f).endOverflows = loop.endOverflows := by
  rw [endOverflows, endOverflows, literalBound?_moved]
  rfl

end RangeLoop

namespace Lowering

variable {α β : Type}

theorem expr_moved (place : Place) (table : SymbolTable) (e : Expr) :
    expr place (table.moved f) (e.moved f) =
      (expr place table e).mapError (Failure.moved f) := by
  induction e with
  | literal value position => rfl
  | name text position =>
      rw [Expr.moved, expr, expr, Place.reference_moved]
      rfl
  | binary op lhs rhs ihl ihr =>
      rw [Expr.moved, expr, expr, SymbolTable.typeOf_moved, SymbolTable.typeOf_moved]
      cases operator? (table.typeOf lhs) (table.typeOf rhs) op with
      | none =>
          dsimp only
          rw [Expr.position_moved]
          rfl
      | some operator =>
          dsimp only
          rw [ihl, ihr]
          cases expr place table lhs with
          | error error => rfl
          | ok left => cases expr place table rhs <;> rfl
  | unary op operand ih =>
      rw [Expr.moved, expr, expr, ih]
      cases expr place table operand <;> rfl
  | assign target op value position => rfl
  | step target op form position => rfl

/-- Run in a moved table, the first action gives what the second gives, moved along. -/
def Moves (moved action : Lowering α) : Prop :=
  ∀ table : SymbolTable, moved.outcome (table.moved f) =
    ((action.outcome table).1.mapError (Failure.moved f),
      (action.outcome table).2.moved f)

namespace Moves

theorem pure (a : α) : Moves f (Pure.pure a) (Pure.pure a) := fun _ => rfl

theorem throw (construct : Construct) (position : Position) :
    Moves f (MonadExcept.throw (.untranslatable ⟨construct, f position⟩) : Lowering α)
      (MonadExcept.throw (.untranslatable ⟨construct, position⟩)) := fun _ => rfl

theorem refuseOverflow (overflows : Bool) :
    Moves f (refuseOverflow overflows) (refuseOverflow overflows) := by
  intro table
  cases overflows <;> rfl

variable {f}

theorem bind {moved action : Lowering α} {next' next : α → Lowering β} (h : Moves f moved action)
    (hnext : ∀ a, Moves f (next' a) (next a)) : Moves f (moved >>= next') (action >>= next) := by
  intro table
  rw [outcome_bind, outcome_bind, h table]
  cases action.outcome table with
  | mk result between =>
      cases result with
      | error error => rfl
      | ok a => exact hnext a between

theorem inScope {moved action : Lowering α} (h : Moves f moved action) :
    Moves f (Lowering.inScope moved) (Lowering.inScope action) := by
  intro table
  have hinner := h table.enter
  rw [← SymbolTable.enter_moved] at hinner
  change ((moved.outcome (table.moved f).enter).1,
    (moved.outcome (table.moved f).enter).2.leave) = _
  rw [hinner]
  dsimp only
  rw [SymbolTable.leave_moved]
  rfl

end Moves

theorem bring_moved (table : SymbolTable) (name : String) (symbol : Symbol) :
    (table.moved f).bring name (symbol.moved f) = (table.bring name symbol).moved f := by
  have hcurrent : (table.moved f).current = table.current.moved f := rfl
  rw [SymbolTable.bring, SymbolTable.bring, hcurrent, Scope.lookup_moved]
  cases table.current.lookup name <;> rfl

theorem declare_moves (name : String) (type : ValueType) (position : Position) :
    Moves f (declare name type (f position)) (declare name type position) := by
  intro table
  have hbring := bring_moved f table name (declared type position)
  rw [outcome_declare, outcome_declare]
  exact Prod.ext rfl hbring

theorem value_moves (place : Place) (e : Expr) :
    Moves f (value place (e.moved f)) (value place e) := by
  intro table
  change (expr place (table.moved f) (e.moved f), table.moved f) = _
  rw [expr_moved]
  rfl

theorem reference_moves (place : Place) (name : String) :
    Moves f (reference place name) (reference place name) := by
  intro table
  change (Except.ok (place.reference (table.moved f) name), table.moved f) = _
  rw [Place.reference_moved]
  rfl

theorem typeOf_moves (e : Expr) : Moves f (typeOf (e.moved f)) (typeOf e) := by
  intro table
  change (Except.ok ((table.moved f).typeOf (e.moved f)), table.moved f) = _
  rw [SymbolTable.typeOf_moved]
  rfl

theorem values_moves (place : Place) (list : List Expr) :
    Moves f (values place (list.map (Expr.moved f))) (values place list) := by
  induction list with
  | nil => exact .pure f _
  | cons first rest ih => exact (value_moves f place first).bind fun _ => ih.bind fun _ => .pure f _

theorem initial_moves (place : Place) (decl : VarDecl) :
    Moves f (initial place (decl.moved f)) (initial place decl) := by
  obtain ⟨modifiers, type, name, init, position⟩ := decl
  cases init with
  | none => exact .pure f _
  | some init => exact value_moves f place init

theorem format_moves (place : Place) (e : Expr) :
    Moves f (format place (e.moved f)) (format place e) := by
  cases e with
  | literal literal position =>
      cases literal with
      | string text => exact .pure f _
      | _ => exact value_moves f place (.literal _ position)
  | _ => exact value_moves f place _

theorem print_moves (place : Place) (kind : PrintKind) (args : List Expr) :
    Moves f (print place kind (args.map (Expr.moved f))) (print place kind args) := by
  cases kind with
  | printf =>
      cases args with
      | nil => exact .pure f _
      | cons first rest =>
          exact (format_moves f place first).bind fun _ =>
            (values_moves f place rest).bind fun _ => .pure f _
  | println =>
      rw [print, print, ← List.map_take]
      exact (values_moves f place _).bind fun _ => .pure f _
  | print =>
      rw [print, print, ← List.map_take]
      exact (values_moves f place _).bind fun _ => .pure f _

theorem effect_moves (place : Place) (e : Expr) :
    Moves f (effect place (e.moved f)) (effect place e) := by
  cases e with
  | assign target op value position =>
      cases op with
      | none =>
          exact (value_moves f place value).bind fun _ =>
            (reference_moves f place target).bind fun _ => .pure f _
      | some op =>
          by_cases hshift : op = .ushr
          · subst hshift
            exact .throw f _ _
          · rw [Expr.moved, effect, effect]
            · exact (typeOf_moves f (.name target position)).bind fun _ =>
                (typeOf_moves f value).bind fun _ => (value_moves f place value).bind fun _ =>
                  (reference_moves f place target).bind fun _ => .pure f _
            · exact hshift
            · exact hshift
  | step target op form position => exact (reference_moves f place target).bind fun _ => .pure f _
  | _ => exact (value_moves f place _).bind fun _ => .pure f _

theorem effects_moves (place : Place) (list : List Expr) :
    Moves f (effects place (list.map (Expr.moved f))) (effects place list) := by
  induction list with
  | nil => exact .pure f _
  | cons first rest ih =>
      exact (effect_moves f place first).bind fun _ => ih.bind fun _ => .pure f _

theorem loopCondition_moves (place : Place) (e : Option Expr) :
    Moves f (loopCondition place (e.map (Expr.moved f))) (loopCondition place e) := by
  cases e with
  | none => exact .pure f _
  | some e => exact value_moves f place e

theorem boundBehind_moved (loop : RangeLoop) (bound : Target.Expr) :
    boundBehind (loop.moved f) bound = boundBehind loop bound := by
  rw [boundBehind, boundBehind, RangeLoop.literalBound?_moved]
  rfl

theorem rangeBounds_moves (place : Place) (loop : RangeLoop) :
    Moves f (rangeBounds place (loop.moved f)) (rangeBounds place loop) := by
  refine (value_moves f place loop.start).bind fun start => ?_
  refine (value_moves f place loop.stop).bind fun bound => ?_
  rw [RangeLoop.endOverflows_moved]
  refine (Moves.refuseOverflow f loop.endOverflows).bind fun _ => ?_
  refine (declare_moves f loop.counter loop.type loop.position).bind fun _ => ?_
  rw [boundBehind_moved]
  exact .pure f _

/-- Two actions one behind the other, with their results joined. -/
theorem Moves.pair {f : Position → Position} {γ : Type} {moved action : Lowering α}
    {moved' action' : Lowering β} (join : α → β → γ) (h : Moves f moved action)
    (h' : Moves f moved' action') :
    Moves f (do return join (← moved) (← moved')) (do return join (← action) (← action')) :=
  h.bind fun _ => h'.bind fun _ => .pure f _

mutual

theorem stmt_moves (place : Place) (shared : Bool) : (s : Stmt) →
    Moves f (stmt place shared (s.moved f)) (stmt place shared s)
  | .declare decl => by
      rw [Stmt.moved, stmt, stmt]
      refine (initial_moves f place decl).bind fun source => ?_
      refine (declare_moves f decl.name _ decl.position).bind fun _ => ?_
      exact (reference_moves f place decl.name).bind fun _ => .pure f _
  | .expression e => by
      rw [Stmt.moved, stmt, stmt]
      exact effect_moves f place e
  | .block body => by
      rw [Stmt.moved, stmt, stmt]
      cases shared with
      | true => exact stmts_moves place body
      | false => exact (stmts_moves place body).inScope
  | .ifElse e thenBranch elseBranch => by
      rw [Stmt.moved, stmt, stmt]
      refine (value_moves f place e).bind fun condition => ?_
      refine (stmt_moves place true thenBranch).inScope.bind fun body => ?_
      exact (alternative_moves place elseBranch).bind fun _ => .pure f _
  | .whileLoop e body => by
      rw [Stmt.moved, stmt, stmt]
      refine (value_moves f place e).bind fun condition => ?_
      exact (stmt_moves place true body).inScope.bind fun _ => .pure f _
  | .doWhile body e => by
      rw [Stmt.moved, stmt, stmt]
      refine Moves.bind (Moves.inScope ?_) fun _ => .pure f _
      exact (stmt_moves place true body).bind fun _ => (value_moves f place e).bind fun _ =>
        .pure f _
  | .forLoop none e update body => by
      rw [Stmt.moved, branchMoved, stmt, stmt]
      refine Moves.inScope ((loopCondition_moves f place e).bind fun condition => ?_)
      refine Moves.bind (Moves.inScope ?_) fun _ => .pure f _
      exact Moves.pair _ (stmt_moves place true body) (effects_moves f place update)
  | .forLoop (some init) e update body => by
      rw [Stmt.moved, branchMoved, stmt, stmt, RangeLoop.detect?_moved,
        RangeLoop.headerOverflows_moved]
      refine Moves.inScope ?_
      cases RangeLoop.detect? init e update body with
      | some loop =>
          refine (rangeBounds_moves f place loop).bind fun bounds => ?_
          refine (reference_moves f place loop.counter).bind fun counter => ?_
          exact (stmt_moves place true body).inScope.bind fun _ => .pure f _
      | none =>
          refine (Moves.refuseOverflow f _).bind fun _ => ?_
          refine (stmt_moves place false init).bind fun first => ?_
          refine (loopCondition_moves f place e).bind fun condition => ?_
          refine Moves.bind (Moves.inScope ?_) fun _ => .pure f _
          exact Moves.pair _ (stmt_moves place true body) (effects_moves f place update)
  | .switch scrutinee cases default => by
      rw [Stmt.moved, stmt, stmt]
      refine (value_moves f place scrutinee).bind fun subject => ?_
      refine (groups_moves place subject none cases).bind fun groups => ?_
      exact (defaultBody_moves place default).bind fun _ => .pure f _
  | .tryCatch body catches cleanup => by
      rw [Stmt.moved, stmt, stmt]
      refine (stmts_moves place body).inScope.bind fun body => ?_
      refine (handlers_moves place catches).bind fun handlers => ?_
      exact (cleanupBody_moves place cleanup).bind fun _ => .pure f _
  | .print kind args _ => by
      rw [Stmt.moved, stmt, stmt]
      exact print_moves f place kind args
  | .returns none _ => by
      rw [Stmt.moved, Option.map_none, stmt, stmt]
      exact .pure f _
  | .returns (some e) _ => by
      rw [Stmt.moved, Option.map_some, stmt, stmt]
      exact (value_moves f place e).bind fun _ => .pure f _
  | .breaks => by
      rw [Stmt.moved, stmt]
      exact .pure f _
  | .continues => by
      rw [Stmt.moved, stmt]
      exact .pure f _
  | .empty => by
      rw [Stmt.moved, stmt]
      exact .pure f _

theorem stmts_moves (place : Place) : (list : List Stmt) →
    Moves f (stmts place (allMoved f list)) (stmts place list)
  | [] => by
      rw [allMoved, stmts]
      exact .pure f _
  | first :: rest => by
      rw [allMoved, stmts, stmts]
      exact Moves.pair _ (stmt_moves place false first) (stmts_moves place rest)

theorem alternative_moves (place : Place) : (branch : Option Stmt) →
    Moves f (alternative place (branchMoved f branch)) (alternative place branch)
  | none => by
      rw [branchMoved, alternative]
      exact .pure f _
  | some branch => by
      have hbranch := (stmt_moves place true branch).inScope
      cases branch with
      | ifElse e thenBranch elseBranch =>
          have hthen := (stmt_moves place true thenBranch).inScope
          have helse := alternative_moves place elseBranch
          rw [branchMoved, Stmt.moved, alternative, alternative]
          exact (value_moves f place e).bind fun _ => hthen.bind fun _ => helse.bind fun _ =>
            .pure f _
      | _ =>
          rw [branchMoved, alternative]
          · rw [alternative]
            · exact hbranch.bind fun _ => .pure f _
            · nofun
          · nofun

theorem caseBody_moves (place : Place) : (list : List Stmt) →
    Moves f (caseBody place (allMoved f list)) (caseBody place list)
  | [] => by
      rw [allMoved, caseBody]
      exact .pure f _
  | first :: rest => by
      have hfirst := stmt_moves place false first
      have hrest := caseBody_moves place rest
      by_cases hbreak : first = .breaks
      · rw [hbreak, allMoved, Stmt.moved, caseBody, caseBody]
        exact .pure f _
      · have hmoved : first.moved f ≠ .breaks := by
          cases first with
          | breaks => exact absurd rfl hbreak
          | _ => nofun
        rw [allMoved, caseBody, caseBody]
        · exact Moves.pair _ hfirst hrest
        · exact hbreak
        · exact hmoved

theorem groups_moves (place : Place) (subject : Target.Expr) (pending : Option Target.Expr) :
    (cases : List (SwitchCase Stmt)) →
    Moves f (groups place subject pending (casesMoved f cases)) (groups place subject pending cases)
  | [] => by
      rw [casesMoved, groups]
      exact .pure f _
  | ⟨label, body⟩ :: rest => by
      rw [casesMoved, groups, groups]
      refine (value_moves f place label).bind fun label => ?_
      have hempty : (allMoved f body).isEmpty = body.isEmpty := by cases body <;> rfl
      rw [hempty]
      by_cases hbody : body.isEmpty = true
      · rw [if_pos hbody, if_pos hbody]
        exact groups_moves place subject _ rest
      · rw [if_neg hbody, if_neg hbody]
        refine (caseBody_moves place body).inScope.bind fun body => ?_
        exact (groups_moves place subject none rest).bind fun _ => .pure f _

theorem defaultBody_moves (place : Place) : (part : Option (List Stmt)) →
    Moves f (defaultBody place (partMoved f part)) (defaultBody place part)
  | none => by
      rw [partMoved, defaultBody]
      exact .pure f _
  | some body => by
      rw [partMoved, defaultBody, defaultBody]
      exact (caseBody_moves place body).inScope.bind fun _ => .pure f _

theorem handlers_moves (place : Place) : (catches : List (CatchClause Stmt)) →
    Moves f (handlers place (catchesMoved f catches)) (handlers place catches)
  | [] => by
      rw [catchesMoved, handlers]
      exact .pure f _
  | ⟨exception, name, body, position⟩ :: rest => by
      rw [catchesMoved, handlers, handlers]
      refine Moves.bind (Moves.inScope ?_) fun body => ?_
      · exact (declare_moves f name _ position).bind fun _ => stmts_moves place body
      · exact (handlers_moves place rest).bind fun _ => .pure f _

theorem cleanupBody_moves (place : Place) : (part : Option (List Stmt)) →
    Moves f (cleanupBody place (partMoved f part)) (cleanupBody place part)
  | none => by
      rw [partMoved, cleanupBody]
      exact .pure f _
  | some body => by
      rw [partMoved, cleanupBody, cleanupBody]
      exact (stmts_moves place body).inScope.bind fun _ => .pure f _

end

theorem declareParams_moves (params : List Param) :
    Moves f (declareParams (params.map (Param.moved f))) (declareParams params) := by
  induction params with
  | nil => exact .pure f _
  | cons first rest ih => exact (declare_moves f first.name _ first.position).bind fun _ => ih

theorem method_moves (place : Place) (decl : Method) :
    Moves f (method place (decl.moved f)) (method place decl) := by
  have hparams : paramNames (decl.moved f) = paramNames decl := by
    unfold paramNames
    rw [Method.moved, List.map_map]
    rfl
  rw [method, method, hparams]
  refine Moves.bind (Moves.inScope ?_) fun body => .pure f _
  exact (declareParams_moves f decl.params).bind fun _ => stmts_moves f _ decl.body

theorem fields_moves (place : Place) (members : List Member) :
    Moves f (fields place (membersMoved f members)) (fields place members) := by
  induction members with
  | nil =>
      rw [membersMoved]
      exact .pure f _
  | cons first rest ih =>
      cases first with
      | field decl =>
          rw [membersMoved, fields, fields]
          refine (initial_moves f place decl).bind fun source => ?_
          refine (declare_moves f decl.name _ decl.position).bind fun _ => ?_
          exact ih.bind fun _ => .pure f _
      | method decl =>
          rw [membersMoved, fields, fields]
          exact ih
      | nested decl =>
          rw [membersMoved, fields, fields]
          exact ih

theorem get_moves {next' next : SymbolTable → Lowering α}
    (h : ∀ table, Moves f (next' (table.moved f)) (next table)) :
    Moves f (get >>= next') (get >>= next) := by
  intro table
  exact h table table

mutual

theorem classDecl_moves : (decl : ClassDecl) →
    Moves f (classDecl (ClassDecl.moved f decl)) (classDecl decl)
  | ⟨_, name, members, _⟩ => by
      rw [ClassDecl.moved, classDecl, classDecl]
      refine Moves.inScope (get_moves f fun table => ?_)
      rw [SymbolTable.depth_moved]
      refine (fields_moves f _ members).bind fun fields => ?_
      exact (definitions_moves _ members).bind fun _ => .pure f _

theorem definitions_moves (place : Place) : (members : List Member) →
    Moves f (definitions place (membersMoved f members)) (definitions place members)
  | [] => by
      rw [membersMoved, definitions]
      exact .pure f _
  | .field _ :: rest => by
      rw [membersMoved, definitions, definitions]
      exact definitions_moves place rest
  | .method decl :: rest => by
      rw [membersMoved, definitions, definitions]
      exact Moves.pair _ (method_moves f place decl) (definitions_moves place rest)
  | .nested decl :: rest => by
      rw [membersMoved, definitions, definitions]
      exact Moves.pair _ (classDecl_moves decl) (definitions_moves place rest)

end

theorem item_moves (first : Item) : Moves f (item (first.moved f)) (item first) := by
  cases first with
  | declaration decl => exact (classDecl_moves f decl).bind fun _ => .pure f _
  | statement s => exact (stmt_moves f .outside false s).bind fun _ => .pure f _

theorem items_moves (list : List Item) :
    Moves f (items (list.map (Item.moved f))) (items list) := by
  induction list with
  | nil => exact .pure f _
  | cons first rest ih => exact Moves.pair _ (item_moves f first) ih

end Lowering

namespace Program

theorem entryClass?_moved (program : Program) :
    (program.moved f).entryClass?.map ClassBody.name = program.entryClass?.map ClassBody.name := by
  have hentry : ∀ decl : ClassDecl,
      (ClassDecl.moved f decl).members.any Member.isEntryPoint =
        decl.members.any Member.isEntryPoint := by
    rintro ⟨modifiers, name, members, position⟩
    rw [ClassDecl.moved]
    exact any_isEntryPoint_moved f members
  have hname : ∀ decl : ClassDecl, (ClassDecl.moved f decl).name = decl.name := by
    rintro ⟨modifiers, name, members, position⟩
    rw [ClassDecl.moved]
  rw [entryClass?, entryClass?, classes_moved, List.find?_map, Option.map_map]
  simp only [Function.comp_def, hentry, hname]

/-- Lowering a moved program gives the same text, or the same failure at the moved position. -/
theorem toPython_moved (program : Program) :
    (program.moved f).toPython = program.toPython.mapError (Failure.moved f) := by
  have hitems := Lowering.items_moves f program.items .empty
  rw [SymbolTable.empty_moved] at hitems
  rw [toPython, toPython, toModule, toModule, entryClass?_moved]
  change ((((Lowering.items (program.items.map (Item.moved f))).outcome .empty).1.map _).map _) = _
  rw [hitems]
  cases ((Lowering.items program.items).outcome .empty).1 <;> rfl

end Program

end MiniJava
