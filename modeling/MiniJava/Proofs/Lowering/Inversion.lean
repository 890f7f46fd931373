import MiniJava.Proofs.Lowering.Yields
import MiniJava.Proofs.Scope.Extends

/-!
# Results of lowerings

What a result of lowering a statement is made of, with the table at each part. Expressions leave
the table as it is, declarations extend it, and what a scope declares is gone behind it.
-/

namespace MiniJava.Lowering

variable {α β : Type}

/-- The action leaves the declarations in scope as they are. -/
def Reads (action : Lowering α) : Prop := ∀ table, (action.outcome table).2 = table

namespace Reads

theorem pure (a : α) : Reads (Pure.pure a) := fun _ => rfl

theorem throw (failure : Failure) : Reads (MonadExcept.throw failure : Lowering α) :=
  fun _ => rfl

theorem refuseOverflow (overflows : Bool) : Reads (refuseOverflow overflows) := by
  cases overflows with
  | false => exact pure ()
  | true => exact throw .overflow

theorem get : Reads (MonadState.get : Lowering SymbolTable) := fun _ => rfl

theorem bind {action : Lowering α} {next : α → Lowering β} (h : Reads action)
    (hnext : ∀ a, Reads (next a)) : Reads (action >>= next) := by
  intro table
  have htable := h table
  rw [outcome_bind]
  cases haction : action.outcome table with
  | mk result between =>
      rw [haction] at htable
      cases result with
      | error error => exact htable
      | ok a => exact (hnext a between).trans htable

theorem value (place : Place) (e : Expr) : Reads (value place e) := fun _ => rfl

theorem reference (place : Place) (name : String) : Reads (reference place name) := fun _ => rfl

theorem typeOf (e : Expr) : Reads (typeOf e) := fun _ => rfl

theorem values (place : Place) (list : List Expr) : Reads (values place list) := by
  induction list with
  | nil => exact pure _
  | cons first rest ih => exact (value place first).bind fun _ => ih.bind fun _ => pure _

theorem initial (place : Place) (decl : VarDecl) : Reads (initial place decl) := by
  unfold Lowering.initial
  split
  · exact pure _
  · exact value place _

theorem loopCondition (place : Place) (e : Option Expr) : Reads (loopCondition place e) := by
  cases e with
  | none => exact pure _
  | some e => exact value place e

theorem format (place : Place) (e : Expr) : Reads (format place e) := by
  unfold Lowering.format
  split
  · exact pure _
  · exact value place _

theorem print (place : Place) (kind : PrintKind) (args : List Expr) :
    Reads (print place kind args) := by
  unfold Lowering.print
  split
  · exact pure _
  · exact (format place _).bind fun _ => (values place _).bind fun _ => pure _
  · exact (values place _).bind fun _ => pure _
  · exact (values place _).bind fun _ => pure _

theorem effect (place : Place) (e : Expr) : Reads (effect place e) := by
  unfold Lowering.effect
  split
  · exact (value place _).bind fun _ => (reference place _).bind fun _ => pure _
  · exact throw _
  · exact (typeOf _).bind fun _ => (typeOf _).bind fun _ => (value place _).bind fun _ =>
      (reference place _).bind fun _ => pure _
  · exact (reference place _).bind fun _ => pure _
  · exact (value place _).bind fun _ => pure _

theorem effects (place : Place) (list : List Expr) : Reads (effects place list) := by
  induction list with
  | nil => exact pure _
  | cons first rest ih => exact (effect place first).bind fun _ => ih.bind fun _ => pure _

theorem after {action : Lowering α} (h : Reads action) {table behind : SymbolTable} {a : α}
    (hout : action.outcome table = (.ok a, behind)) : behind = table := by
  have htable := h table
  rw [hout] at htable
  exact htable

theorem exists_of_bind {action : Lowering α} {next : α → Lowering β} (h : Reads action)
    {table after : SymbolTable} {b : β} (hout : (action >>= next).outcome table = (.ok b, after)) :
    ∃ a, action.outcome table = (.ok a, table) ∧ (next a).outcome table = (.ok b, after) := by
  obtain ⟨a, between, haction, hnext⟩ := Lowering.exists_of_bind hout
  obtain rfl := h.after haction
  exact ⟨a, haction, hnext⟩

end Reads

/-- Two results, one behind the other, as one. -/
theorem exists_of_pair {action : Lowering α} {next : Lowering β} {γ : Type} {join : α → β → γ}
    {table after : SymbolTable} {c : γ}
    (h : (do return join (← action) (← next)).outcome table = (.ok c, after)) :
    ∃ a b between, action.outcome table = (.ok a, between) ∧
      next.outcome between = (.ok b, after) ∧ c = join a b := by
  obtain ⟨a, between, haction, hrest⟩ := exists_of_bind h
  obtain ⟨b, _, hnext, hpure⟩ := exists_of_bind hrest
  cases hpure
  exact ⟨a, b, between, haction, hnext, rfl⟩

/-- The symbol of a variable that is declared with a value. -/
def declared (type : ValueType) (position : Position) : Symbol := ⟨type, position, true, false⟩

theorem outcome_modify (f : SymbolTable → SymbolTable) (table : SymbolTable) :
    outcome (modify f) table = (.ok (), f table) := rfl

theorem outcome_declare (name : String) (type : ValueType) (position : Position)
    (table : SymbolTable) : (declare name type position).outcome table =
      (.ok (), table.bring name (declared type position)) := by
  rw [declare, outcome_modify]
  unfold SymbolTable.declare SymbolTable.bring
  cases table.current.lookup name <;> rfl

theorem outcome_declare_bind (name : String) (type : ValueType) (position : Position)
    (next : Unit → Lowering β) (table : SymbolTable) :
    (declare name type position >>= next).outcome table =
      (next ()).outcome (table.bring name (declared type position)) := by
  rw [outcome_bind, outcome_declare]

theorem outcome_refuseOverflow_bind {overflows : Bool} (h : overflows = false)
    (next : Unit → Lowering β) (table : SymbolTable) :
    (refuseOverflow overflows >>= next).outcome table = (next ()).outcome table := by
  rw [h]
  rfl

section Statements

variable {place : Place} {shared : Bool} {table after : SymbolTable} {e : Expr}
  {body rest : List Stmt} {out : List Target.Stmt}

theorem exists_of_declare {decl : VarDecl}
    (h : (stmt place shared (.declare decl)).outcome table = (.ok out, after)) :
    ∃ source, (initial place decl).outcome table = (.ok source, table) ∧
      after = table.bring decl.name (declared (.ofTypeName decl.type) decl.position) ∧
      out = [.assign (place.reference after decl.name) source] := by
  rw [stmt] at h
  obtain ⟨source, hsource, hrest⟩ := (Reads.initial place decl).exists_of_bind h
  rw [outcome_declare_bind] at hrest
  cases hrest
  exact ⟨source, hsource, rfl, rfl⟩

theorem exists_of_block (h : (stmt place false (.block body)).outcome table = (.ok out, after)) :
    ∃ inner, (stmts place body).outcome table.enter = (.ok out, inner) ∧ after = inner.leave := by
  rw [stmt] at h
  exact exists_of_inScope h

theorem exists_of_ifElse {thenBranch : Stmt} {elseBranch : Option Stmt}
    (h : (stmt place shared (.ifElse e thenBranch elseBranch)).outcome table = (.ok out, after)) :
    ∃ condition body inner rest, (value place e).outcome table = (.ok condition, table) ∧
      (stmt place true thenBranch).outcome table.enter = (.ok body, inner) ∧
      (alternative place elseBranch).outcome inner.leave = (.ok rest, after) ∧
      out = [.ifElse condition body rest] := by
  rw [stmt] at h
  obtain ⟨condition, hcondition, hbranches⟩ := (Reads.value place e).exists_of_bind h
  obtain ⟨body, _, hbody, helse⟩ := exists_of_bind hbranches
  obtain ⟨inner, hinner, rfl⟩ := exists_of_inScope hbody
  obtain ⟨rest, _, hrest, hpure⟩ := exists_of_bind helse
  cases hpure
  exact ⟨condition, body, inner, rest, hcondition, hinner, hrest, rfl⟩

theorem exists_of_whileLoop {s : Stmt}
    (h : (stmt place shared (.whileLoop e s)).outcome table = (.ok out, after)) :
    ∃ condition body inner, (value place e).outcome table = (.ok condition, table) ∧
      (stmt place true s).outcome table.enter = (.ok body, inner) ∧ after = inner.leave ∧
      out = [.whileLoop condition body] := by
  rw [stmt] at h
  obtain ⟨condition, hcondition, hrest⟩ := (Reads.value place e).exists_of_bind h
  obtain ⟨body, _, hbody, hpure⟩ := exists_of_bind hrest
  obtain ⟨inner, hinner, rfl⟩ := exists_of_inScope hbody
  cases hpure
  exact ⟨condition, body, inner, hcondition, hinner, rfl, rfl⟩

def exitUnless (condition : Target.Expr) : Target.Stmt :=
  .ifElse (.negation condition) [.breaks] .nothing

theorem exists_of_doWhile {s : Stmt}
    (h : (stmt place shared (.doWhile s e)).outcome table = (.ok out, after)) :
    ∃ body condition inner, (stmt place true s).outcome table.enter = (.ok body, inner) ∧
      (value place e).outcome inner = (.ok condition, inner) ∧ after = inner.leave ∧
      out = [.whileLoop (.bool true) (body ++ [exitUnless condition])] := by
  rw [stmt] at h
  obtain ⟨whole, _, hwhole, hpure⟩ := exists_of_bind h
  cases hpure
  obtain ⟨_, hinner, rfl⟩ := exists_of_inScope hwhole
  obtain ⟨body, inner, hbody, hrest⟩ := exists_of_bind hinner
  obtain ⟨condition, hcondition, hpure⟩ := (Reads.value place e).exists_of_bind hrest
  cases hpure
  exact ⟨body, condition, _, hbody, hcondition, rfl, rfl⟩

/-- A body and then effects, in a scope of their own. -/
theorem exists_of_round {s : Stmt} {update : List Expr}
    (h : (inScope do return (← stmt place true s) ++ (← effects place update)).outcome table =
      (.ok out, after)) :
    ∃ body last inner, (stmt place true s).outcome table.enter = (.ok body, inner) ∧
      (effects place update).outcome inner = (.ok last, inner) ∧ after = inner.leave ∧
      out = body ++ last := by
  obtain ⟨_, hwhole, rfl⟩ := exists_of_inScope h
  obtain ⟨body, last, inner, hbody, hlast, rfl⟩ := exists_of_pair hwhole
  obtain rfl := (Reads.effects place update).after hlast
  exact ⟨body, last, _, hbody, hlast, rfl, rfl⟩

theorem exists_of_bareFor {test : Option Expr} {update : List Expr} {s : Stmt}
    (h : (stmt place shared (.forLoop none test update s)).outcome table = (.ok out, after)) :
    ∃ condition body last inner,
      (loopCondition place test).outcome table.enter = (.ok condition, table.enter) ∧
      (stmt place true s).outcome table.enter.enter = (.ok body, inner) ∧
      (effects place update).outcome inner = (.ok last, inner) ∧ after = inner.leave.leave ∧
      out = [.whileLoop condition (body ++ last)] := by
  rw [stmt] at h
  obtain ⟨_, hinner, rfl⟩ := exists_of_inScope h
  obtain ⟨condition, hcondition, hrest⟩ := (Reads.loopCondition place test).exists_of_bind hinner
  obtain ⟨whole, _, hwhole, hpure⟩ := exists_of_bind hrest
  cases hpure
  obtain ⟨body, last, inner, hbody, hlast, rfl, rfl⟩ := exists_of_round hwhole
  exact ⟨condition, body, last, inner, hcondition, hbody, hlast, rfl, rfl⟩

section For

variable {init s : Stmt} {test : Option Expr} {update : List Expr}

theorem exists_of_for (hdetect : RangeLoop.detect? init test update s = none)
    (h : (stmt place shared (.forLoop (some init) test update s)).outcome table =
      (.ok out, after)) :
    ∃ first begun condition body last inner,
      (stmt place false init).outcome table.enter = (.ok first, begun) ∧
      (loopCondition place test).outcome begun = (.ok condition, begun) ∧
      (stmt place true s).outcome begun.enter = (.ok body, inner) ∧
      (effects place update).outcome inner = (.ok last, inner) ∧ after = inner.leave.leave ∧
      out = first ++ [.whileLoop condition (body ++ last)] := by
  rw [stmt] at h
  obtain ⟨_, hinner, rfl⟩ := exists_of_inScope h
  rw [hdetect] at hinner
  obtain ⟨-, hheader⟩ := exists_of_refuseOverflow hinner
  obtain ⟨first, begun, hfirst, hbehind⟩ := exists_of_bind hheader
  obtain ⟨condition, hcondition, hrest⟩ := (Reads.loopCondition place test).exists_of_bind hbehind
  obtain ⟨whole, _, hwhole, hpure⟩ := exists_of_bind hrest
  cases hpure
  obtain ⟨body, last, inner, hbody, hlast, rfl, rfl⟩ := exists_of_round hwhole
  exact ⟨first, begun, condition, body, last, inner, hfirst, hcondition, hbody, hlast, rfl, rfl⟩

/-- The table with the counter of a loop. -/
def counted (loop : RangeLoop) (table : SymbolTable) : SymbolTable :=
  table.bring loop.counter (declared loop.type loop.position)

theorem exists_of_rangeBounds {loop : RangeLoop} {bounds : Target.Expr × Target.Expr}
    (h : (rangeBounds place loop).outcome table = (.ok bounds, after)) :
    ∃ start bound, (value place loop.start).outcome table = (.ok start, table) ∧
      (value place loop.stop).outcome table = (.ok bound, table) ∧ after = counted loop table ∧
      bounds = (start, if loop.inclusive then boundBehind loop bound else bound) := by
  obtain ⟨start, hstart, hrest⟩ := (Reads.value place loop.start).exists_of_bind h
  obtain ⟨bound, hbound, hend⟩ := (Reads.value place loop.stop).exists_of_bind hrest
  obtain ⟨-, hdeclare⟩ := exists_of_refuseOverflow hend
  rw [outcome_declare_bind] at hdeclare
  cases hdeclare
  exact ⟨start, bound, hstart, hbound, rfl, rfl⟩

theorem exists_of_range {loop : RangeLoop}
    (hdetect : RangeLoop.detect? init test update s = some loop)
    (h : (stmt place shared (.forLoop (some init) test update s)).outcome table =
      (.ok out, after)) :
    ∃ start bound body inner,
      (rangeBounds place loop).outcome table.enter =
        (.ok (start, bound), counted loop table.enter) ∧
      (stmt place true s).outcome (counted loop table.enter).enter = (.ok body, inner) ∧
      after = inner.leave.leave ∧
      out = [.forRange (place.reference (counted loop table.enter) loop.counter) start bound
        loop.step body] := by
  rw [stmt] at h
  obtain ⟨_, hloop, rfl⟩ := exists_of_inScope h
  rw [hdetect] at hloop
  obtain ⟨⟨start, bound⟩, _, hbounds, hbehind⟩ := exists_of_bind hloop
  obtain ⟨_, _, _, _, rfl, _⟩ := exists_of_rangeBounds hbounds
  obtain ⟨counter, hcounter, hrest⟩ := (Reads.reference place loop.counter).exists_of_bind hbehind
  obtain ⟨body, _, hbody, hpure⟩ := exists_of_bind hrest
  cases hcounter
  cases hpure
  obtain ⟨inner, hinner, rfl⟩ := exists_of_inScope hbody
  exact ⟨start, bound, body, inner, hbounds, hinner, rfl, rfl⟩

end For

theorem exists_of_switch {cases : List (SwitchCase Stmt)} {default : Option (List Stmt)}
    (h : (stmt place shared (.switch e cases default)).outcome table = (.ok out, after)) :
    ∃ subject labels behind rest, (value place e).outcome table = (.ok subject, table) ∧
      (groups place subject none cases).outcome table = (.ok labels, behind) ∧
      (defaultBody place default).outcome behind = (.ok rest, after) ∧ out = chain labels rest := by
  rw [stmt] at h
  obtain ⟨subject, hsubject, hrest⟩ := (Reads.value place e).exists_of_bind h
  obtain ⟨labels, rest, behind, hlabels, hdefault, rfl⟩ := exists_of_pair hrest
  exact ⟨subject, labels, behind, rest, hsubject, hlabels, hdefault, rfl⟩

theorem exists_of_tryCatch {catches : List (CatchClause Stmt)} {cleanup : Option (List Stmt)}
    (h : (stmt place shared (.tryCatch body catches cleanup)).outcome table = (.ok out, after)) :
    ∃ first inner caught behind last,
      (stmts place body).outcome table.enter = (.ok first, inner) ∧
      (handlers place catches).outcome inner.leave = (.ok caught, behind) ∧
      (cleanupBody place cleanup).outcome behind = (.ok last, after) ∧
      out = [.tryExcept first caught last] := by
  rw [stmt] at h
  obtain ⟨first, _, hfirst, hrest⟩ := exists_of_bind h
  obtain ⟨inner, hinner, rfl⟩ := exists_of_inScope hfirst
  obtain ⟨caught, last, behind, hcaught, hlast, rfl⟩ := exists_of_pair hrest
  exact ⟨first, inner, caught, behind, last, hinner, hcaught, hlast, rfl⟩

theorem exists_of_cons {s : Stmt}
    (h : (stmts place (s :: rest)).outcome table = (.ok out, after)) :
    ∃ first more between, (stmt place false s).outcome table = (.ok first, between) ∧
      (stmts place rest).outcome between = (.ok more, after) ∧ out = first ++ more := by
  rw [stmts] at h
  exact exists_of_pair h

theorem exists_of_otherwise {branch : Stmt} {result : Target.Alternative}
    (hbranch : ∀ e thenBranch elseBranch, branch ≠ .ifElse e thenBranch elseBranch)
    (h : (alternative place (some branch)).outcome table = (.ok result, after)) :
    ∃ body inner, (stmt place true branch).outcome table.enter = (.ok body, inner) ∧
      after = inner.leave ∧ result = .otherwise body := by
  rw [alternative] at h
  · obtain ⟨body, _, hbody, hpure⟩ := exists_of_bind h
    obtain ⟨inner, hinner, rfl⟩ := exists_of_inScope hbody
    cases hpure
    exact ⟨body, inner, hinner, rfl, rfl⟩
  · exact hbranch

/-- An `else if` is lowered as the statement would be. -/
theorem exists_of_elseIf {thenBranch : Stmt} {elseBranch : Option Stmt}
    {result : Target.Alternative}
    (h : (alternative place (some (.ifElse e thenBranch elseBranch))).outcome table =
      (.ok result, after)) :
    ∃ condition body rest, (stmt place false (.ifElse e thenBranch elseBranch)).outcome table =
        (.ok [.ifElse condition body rest], after) ∧ result = .elseIf condition body rest := by
  rw [alternative] at h
  obtain ⟨condition, hcondition, hbranches⟩ := (Reads.value place e).exists_of_bind h
  obtain ⟨body, _, hbody, helse⟩ := exists_of_bind hbranches
  obtain ⟨rest, _, hrest, hpure⟩ := exists_of_bind helse
  cases hpure
  refine ⟨condition, body, rest, ?_, rfl⟩
  simp only [stmt, outcome_bind, hcondition, hbody, hrest]
  rfl

theorem exists_of_label {s : Stmt} (hbreak : s ≠ .breaks)
    (h : (caseBody place (s :: rest)).outcome table = (.ok out, after)) :
    ∃ first more between, (stmt place false s).outcome table = (.ok first, between) ∧
      (caseBody place rest).outcome between = (.ok more, after) ∧ out = first ++ more := by
  rw [caseBody] at h
  · exact exists_of_pair h
  · exact hbreak

section Labels

variable {subject : Target.Expr} {pending : Option Target.Expr} {label : Expr}
  {cases : List (SwitchCase Stmt)} {labels : List (Target.Expr × List Target.Stmt)}

theorem exists_of_emptyLabel
    (h : (groups place subject pending (⟨label, []⟩ :: cases)).outcome table =
      (.ok labels, after)) :
    ∃ test, (value place label).outcome table = (.ok test, table) ∧
      (groups place subject (some (matching subject pending test)) cases).outcome table =
        (.ok labels, after) := by
  rw [groups] at h
  exact (Reads.value place label).exists_of_bind h

theorem exists_of_group {s : Stmt}
    (h : (groups place subject pending (⟨label, s :: body⟩ :: cases)).outcome table =
      (.ok labels, after)) :
    ∃ test first inner rest, (value place label).outcome table = (.ok test, table) ∧
      (caseBody place (s :: body)).outcome table.enter = (.ok first, inner) ∧
      (groups place subject none cases).outcome inner.leave = (.ok rest, after) ∧
      labels = (matching subject pending test, first) :: rest := by
  rw [groups] at h
  obtain ⟨test, htest, hrest⟩ := (Reads.value place label).exists_of_bind h
  obtain ⟨first, _, hfirst, hmore⟩ := exists_of_bind hrest
  obtain ⟨inner, hinner, rfl⟩ := exists_of_inScope hfirst
  obtain ⟨rest, _, hgroups, hpure⟩ := exists_of_bind hmore
  cases hpure
  exact ⟨test, first, inner, rest, htest, hinner, hgroups, rfl⟩

end Labels

theorem exists_of_default {result : Option (List Target.Stmt)}
    (h : (defaultBody place (some body)).outcome table = (.ok result, after)) :
    ∃ first inner, (caseBody place body).outcome table.enter = (.ok first, inner) ∧
      after = inner.leave ∧ result = some first := by
  rw [defaultBody] at h
  obtain ⟨first, _, hfirst, hpure⟩ := exists_of_bind h
  obtain ⟨inner, hinner, rfl⟩ := exists_of_inScope hfirst
  cases hpure
  exact ⟨first, inner, hinner, rfl, rfl⟩

theorem exists_of_cleanup {result : Option (List Target.Stmt)}
    (h : (cleanupBody place (some body)).outcome table = (.ok result, after)) :
    ∃ first inner, (stmts place body).outcome table.enter = (.ok first, inner) ∧
      after = inner.leave ∧ result = some first := by
  rw [cleanupBody] at h
  obtain ⟨first, _, hfirst, hpure⟩ := exists_of_bind h
  obtain ⟨inner, hinner, rfl⟩ := exists_of_inScope hfirst
  cases hpure
  exact ⟨first, inner, hinner, rfl, rfl⟩

theorem exists_of_handler {exception : TypeName} {name : String} {position : Position}
    {catches : List (CatchClause Stmt)} {result : List (Target.Handler Target.Stmt)}
    (h : (handlers place (⟨exception, name, body, position⟩ :: catches)).outcome table =
      (.ok result, after)) :
    ∃ first inner rest,
      (stmts place body).outcome
        (table.enter.bring name (declared (.ofTypeName exception) position)) =
          (.ok first, inner) ∧
      (handlers place catches).outcome inner.leave = (.ok rest, after) ∧
      result = ⟨exceptionName exception, name, first⟩ :: rest := by
  rw [handlers] at h
  obtain ⟨first, rest, _, hfirst, hrest, rfl⟩ := exists_of_pair h
  obtain ⟨inner, hinner, rfl⟩ := exists_of_inScope hfirst
  rw [outcome_declare_bind] at hinner
  exact ⟨first, inner, rest, hinner, hrest, rfl⟩

end Statements

end MiniJava.Lowering
