import MiniJava.Proofs.Diagnostics.Clean
import MiniJava.Proofs.Scope.Agreement
import MiniJava.Proofs.Target.Kinds

/-!
# The checks behind the operations in expressions

Every operation that an expression becomes comes from one that the checker judges, and its operands
are lowered as they would be with the checker's table there. The bound of a counting loop comes from
the comparison in the header; assignments and steps come from their own checks.
-/

namespace MiniJava

open SymbolTable (Agree Level Move)
open Target (Application allApplications)

def Place.Same (place : Place) (names : List String) (table other : SymbolTable) : Prop :=
  ∀ name ∈ names, place.meaning table name = place.meaning other name

namespace Place.Same

variable {place : Place} {names more : List String} {table other : SymbolTable}

theorem of_agree (h : Agree place names table other) (hsub : more ⊆ names) :
    place.Same more table other := fun name hname => h.meaning name (hsub hname)

theorem of_bare (h : table.bare = other.bare) : place.Same names table other :=
  fun name _ => place.meaning_of_bare h name

theorem mono (h : place.Same names table other) (hsub : more ⊆ names) :
    place.Same more table other := fun name hname => h name (hsub hname)

/-- Sameness does not depend on what has been assigned. -/
theorem behind {after : SymbolTable} (h : place.Same names table other)
    (hafter : after.bare = other.bare) : place.Same names table after :=
  fun name hname => (h name hname).trans (place.meaning_of_bare hafter.symm name)

theorem reference {name : String} (h : place.meaning table name = place.meaning other name) :
    place.reference table name = place.reference other name := by
  have hholder := congrArg Meaning.holder h
  unfold Place.reference
  rw [show place.fieldHolder? table name = place.fieldHolder? other name from hholder]

theorem declared {name : String} (h : place.meaning table name = place.meaning other name) :
    table.declaredType? name = other.declaredType? name := by
  have htype (table : SymbolTable) : table.declaredType? name =
      (place.meaning table name).declaration.map Prod.fst := by
    rw [SymbolTable.declaredType?, SymbolTable.lookup?, meaning, Option.map_map, Option.map_map]
    rfl
  rw [htype, htype, h]

theorem typeOf {e : Expr} (h : place.Same e.names table other) :
    table.typeOf e = other.typeOf e :=
  SymbolTable.typeOf_congr fun name hname => declared (h name hname)

/-- An expression is lowered in the same way. -/
theorem expr {e : Expr} (h : place.Same e.names table other) :
    Lowering.expr place table e = Lowering.expr place other e := by
  induction e with
  | literal value position => rfl
  | name word position =>
      rw [Lowering.expr, Lowering.expr, reference (h word List.mem_cons_self)]
  | binary op lhs rhs ihl ihr =>
      have hleft := h.mono (List.subset_append_left lhs.names rhs.names)
      have hright := h.mono (List.subset_append_right lhs.names rhs.names)
      rw [Lowering.expr, Lowering.expr, ihl hleft, ihr hright, hleft.typeOf, hright.typeOf]
  | unary op operand ih => rw [Lowering.expr, Lowering.expr, ih h]
  | assign target op value position ih => rfl
  | step target op form position => rfl

end Place.Same

namespace Lowering

/-- An operand of a concatenation, or of another operation. -/
def operandText (joins : Bool) (type : Option ValueType) (side : Target.Expr) : Target.Expr :=
  if joins then asText type side else side

theorem binary_eq (op : BinaryOp) (operator : Target.Operator) (lhsType rhsType : Option ValueType)
    (lhs rhs : Target.Expr) : binary op operator lhsType rhsType lhs rhs =
      .binary operator (operandText (op.joinsStrings lhsType rhsType) lhsType lhs)
        (operandText (op.joinsStrings lhsType rhsType) rhsType rhs) := by
  unfold binary operandText
  split <;> rfl

def stepOperator : StepOp → Target.Operator
  | .increment => .add
  | .decrement => .sub

/-- How a compound assignment is written. -/
def updateOp (target source : Option ValueType) (op : BinaryOp) : Target.UpdateOp :=
  if op = .div && dividesIntegers target source then .floorDiv else .applying op

/-- An operation that is written for what a check judges, with the names as they are in the table of
the check. -/
inductive Emits (place : Place) (table : SymbolTable) : Check → Application → Prop
  | operation {op : BinaryOp} {lhs rhs : Expr} {operator : Target.Operator}
      {left right : Target.Expr}
      (hoperator : operator? (table.typeOf lhs) (table.typeOf rhs) op = some operator)
      (hcomputes : operator.computes = true)
      (hleft : expr place table lhs = .ok left) (hright : expr place table rhs = .ok right) :
      Emits place table (.applies op lhs rhs)
        ⟨operator,
          operandText (op.joinsStrings (table.typeOf lhs) (table.typeOf rhs)) (table.typeOf lhs) left,
          operandText (op.joinsStrings (table.typeOf lhs) (table.typeOf rhs)) (table.typeOf rhs)
            right⟩
  | bound {op : BinaryOp} {counter stop : Expr} {last : Target.Expr} {operator : Target.Operator}
      (hop : op = .le ∨ op = .ge) (hoperator : operator = .add ∨ operator = .sub)
      (hstop : expr place table stop = .ok last) :
      Emits place table (.applies op counter stop) ⟨operator, last, .number "1"⟩
  | update {target : String} {op : BinaryOp} {value : Expr} {position : Position}
      {operator : Target.Operator} {source : Target.Expr}
      (hoperator : (updateOp (table.typeOf (.name target position)) (table.typeOf value)
        op).operator? = some operator)
      (hsource : expr place table value = .ok source) :
      Emits place table (.stores target (some op) value position)
        ⟨operator, place.reference table target, source⟩
  | step (target : String) (op : StepOp) (position : Position) :
      Emits place table (.steps target op position)
        ⟨stepOperator op, place.reference table target, .number "1"⟩

/-- Every one of the operations is written for one of the checks. -/
def Judged (visits : List Visit) (operations : List Application) : Prop :=
  ∀ operation ∈ operations, ∃ place, ∃ visit ∈ visits,
    Emits place visit.table visit.check operation

namespace Judged

variable {visits wider : List Visit} {operations more : List Application} {c next : Inspection}
  {checks further : List Check}

theorem nil : Judged visits [] := nofun

theorem append (h : Judged visits operations) (hmore : Judged visits more) :
    Judged visits (operations ++ more) :=
  List.forall_mem_append.mpr ⟨h, hmore⟩

theorem mono (h : Judged visits operations) (hsub : visits ⊆ wider) : Judged wider operations :=
  fun operation hoperation =>
    let ⟨place, visit, hvisit, hemits⟩ := h operation hoperation
    ⟨place, visit, hsub hvisit, hemits⟩

theorem before (h : Judged (c.symbols.visits checks) operations) :
    Judged (c.symbols.visits (checks ++ further)) operations := by
  rw [SymbolTable.visits_append]
  exact h.mono (List.subset_append_left ..)

theorem behind (hnext : next = c.run checks)
    (h : Judged (next.symbols.visits further) operations) :
    Judged (c.symbols.visits (checks ++ further)) operations := by
  rw [SymbolTable.visits_append, ← Inspection.symbols_run, ← hnext]
  exact h.mono (List.subset_append_right ..)

theorem within (h : Judged (c.enter.symbols.visits checks) operations) :
    Judged (c.symbols.visits (.enter :: checks ++ [.leave])) operations := by
  have hentered : Judged (c.symbols.visits ([.enter] ++ checks)) operations := behind rfl h
  exact hentered.before

theorem single (place : Place) {table : SymbolTable} {check : Check} {operation : Application}
    (h : Emits place table check operation) : Judged (table.visits [check]) [operation] :=
  List.forall_mem_singleton.mpr ⟨place, _, List.mem_cons_self, h⟩

end Judged

section Expressions

variable {place : Place} {table after : SymbolTable}

theorem operandText_applications (joins : Bool) (type : Option ValueType) (side : Target.Expr) :
    (operandText joins type side).applications = side.applications := by
  unfold operandText asText
  split
  · split <;> rfl
  · rfl

theorem reference_applications (table : SymbolTable) (name : String) :
    (place.reference table name).applications = [] := by
  unfold Place.reference
  split <;> rfl

theorem exists_of_binary {op : BinaryOp} {lhs rhs : Expr} {out : Target.Expr}
    (h : expr place table (.binary op lhs rhs) = .ok out) :
    ∃ operator left right,
      operator? (table.typeOf lhs) (table.typeOf rhs) op = some operator ∧
      expr place table lhs = .ok left ∧ expr place table rhs = .ok right ∧
      out = binary op operator (table.typeOf lhs) (table.typeOf rhs) left right := by
  rw [expr] at h
  split at h
  · cases h
  · next operator hoperator =>
      cases hleft : expr place table lhs with
      | error error => rw [hleft] at h; cases h
      | ok left =>
          cases hright : expr place table rhs with
          | error error => rw [hleft, hright] at h; cases h
          | ok right =>
              rw [hleft, hright] at h
              cases h
              exact ⟨operator, left, right, hoperator, rfl, rfl, rfl⟩

theorem exists_of_unary {op : UnaryOp} {operand : Expr} {out : Target.Expr}
    (h : expr place table (.unary op operand) = .ok out) :
    ∃ inner, expr place table operand = .ok inner ∧ out = unary op inner := by
  rw [expr] at h
  cases hoperand : expr place table operand with
  | error error => rw [hoperand] at h; cases h
  | ok inner =>
      rw [hoperand] at h
      cases h
      exact ⟨inner, rfl, rfl⟩

/-- Behind the checks of an expression every expression is lowered as in front of them. -/
theorem expr_behind (e value : Expr) (c : Inspection) :
    expr place (c.run e.checks).symbols value = expr place c.symbols value := by
  rw [← Inspection.run_expr]
  exact (Place.Same.of_bare (Inspection.expr_bare e c)).expr

theorem expr_judged {e : Expr} {out : Target.Expr} {c : Inspection}
    (h : expr place c.symbols e = .ok out) : Judged (c.symbols.visits e.checks) out.applications := by
  induction e generalizing c out with
  | literal value position =>
      cases h
      cases value <;> exact .nil
  | name word position =>
      cases h
      rw [reference_applications]
      exact .nil
  | binary op lhs rhs ihl ihr =>
      obtain ⟨operator, left, right, hoperator, hleft, hright, rfl⟩ := exists_of_binary h
      have hjudged : Judged (c.symbols.visits (lhs.checks ++ rhs.checks))
          (left.applications ++ right.applications) :=
        (ihl hleft).before.append
          (.behind rfl (ihr ((expr_behind lhs rhs c).trans hright)))
      rw [binary_eq, Target.Expr.applications, operandText_applications, operandText_applications,
        Expr.checks]
      refine hjudged.before.append ?_
      split
      · next hcomputes =>
        refine .behind (Inspection.run_append c ..).symm (.single place ?_)
        have htype (e : Expr) : ((c.run lhs.checks).run rhs.checks).symbols.typeOf e =
            c.symbols.typeOf e := by
          rw [← Inspection.run_expr, Inspection.typeOf_behind, ← Inspection.run_expr,
            Inspection.typeOf_behind]
        have hlower (e : Expr) : expr place ((c.run lhs.checks).run rhs.checks).symbols e =
            expr place c.symbols e := by rw [expr_behind, expr_behind]
        rw [← htype lhs, ← htype rhs] at hoperator ⊢
        exact .operation hoperator hcomputes ((hlower lhs).trans hleft) ((hlower rhs).trans hright)
      · exact .nil
  | unary op operand ih =>
      obtain ⟨inner, hinner, rfl⟩ := exists_of_unary h
      have hsame : (unary op inner).applications = inner.applications := by cases op <;> rfl
      rw [hsame]
      exact (ih hinner).before
  | assign target op value position ih => cases h
  | step target op form position => cases h

theorem value_judged {e : Expr} {out : Target.Expr} {c : Inspection}
    (hsame : place.Same e.names table c.symbols)
    (h : (value place e).outcome table = (.ok out, after)) :
    Judged (c.symbols.visits e.checks) out.applications :=
  expr_judged (hsame.expr.symm.trans (Prod.mk.inj h).1)

theorem values_judged {list : List Expr} {out : List Target.Expr} {c : Inspection}
    (hsame : place.Same (namesIn list) table c.symbols)
    (h : (values place list).outcome table = (.ok out, after)) :
    Judged (c.symbols.visits (list.flatMap Expr.checks))
      (out.flatMap Target.Expr.applications) := by
  induction list generalizing out after c with
  | nil =>
      cases h
      exact .nil
  | cons first rest ih =>
      obtain ⟨value, hvalue, hrest⟩ := (Reads.value place first).exists_of_bind h
      obtain ⟨more, hmore, hpure⟩ := (Reads.values place rest).exists_of_bind hrest
      cases hpure
      have hfirst := value_judged (hsame.mono (List.subset_append_left ..)) hvalue
      have hbehind := (hsame.mono (List.subset_append_right first.names (namesIn rest))).behind
        (Inspection.expr_bare first c)
      exact hfirst.before.append (.behind (Inspection.run_expr first c) (ih hbehind hmore))

theorem initial_judged {decl : VarDecl} {out : Target.Expr} {c : Inspection} (initialized : Bool)
    (hsame : place.Same (namesIn decl.init.toList) table c.symbols)
    (h : (initial place decl).outcome table = (.ok out, after)) :
    Judged (c.symbols.visits (decl.checks initialized)) out.applications := by
  unfold initial at h
  unfold VarDecl.checks
  cases hinit : decl.init with
  | none =>
      rw [hinit] at h
      cases h
      have hnone (type : ValueType) : (defaultValue type).applications = [] := by
        unfold defaultValue
        split
        · rfl
        · rfl
        · rfl
        · split <;> rfl
      rw [hnone]
      exact .nil
  | some e =>
      rw [hinit] at h hsame
      simp only [Option.toList_some, namesIn, List.flatMap_singleton] at hsame
      exact (value_judged hsame h).before.before

theorem condition_judged {statement : Conditional} {e : Expr} {out : Target.Expr} {c : Inspection}
    (hsame : place.Same e.names table c.symbols)
    (h : (value place e).outcome table = (.ok out, after)) :
    Judged (c.symbols.visits (statement.checks e)) out.applications :=
  (value_judged hsame h).before

theorem loopCondition_judged {e : Option Expr} {update : List Expr} {out : Target.Expr}
    {c : Inspection} (hsame : place.Same (namesIn e.toList) table c.symbols)
    (h : (loopCondition place e).outcome table = (.ok out, after)) :
    Judged (c.symbols.visits (headerChecks e update)) out.applications := by
  cases e with
  | none =>
      cases h
      exact .nil
  | some e =>
      simp only [Option.toList_some, namesIn, List.flatMap_singleton] at hsame
      rw [headerChecks, Option.toList_some, List.flatMap_singleton]
      exact (condition_judged hsame h).before

/-- The value of an assignment, and what is written for the assignment itself. -/
theorem assign_judged {target : String} {op : Option BinaryOp} {e : Expr} {position : Position}
    {source : Target.Expr} {operations : List Application} {c : Inspection}
    (hsame : place.Same e.names table c.symbols)
    (h : (value place e).outcome table = (.ok source, after))
    (hstores : ∀ behind : SymbolTable, behind.bare = c.symbols.bare →
      Judged (behind.visits [.stores target op e position]) operations) :
    Judged (c.symbols.visits (Expr.assign target op e position).checks)
      (source.applications ++ operations) := by
  have hbegun : (Check.begins target op e position).after c.symbols = c.symbols :=
    Check.after_eq ..
  rw [Expr.checks, List.cons_append, SymbolTable.visits_cons, hbegun]
  refine Judged.mono ?_ (List.subset_cons_self ..)
  exact (value_judged hsame h).before.append
    (.behind (Inspection.run_expr e c) (hstores _ (Inspection.expr_bare e c)))

theorem update_judged {target : String} {op : BinaryOp} {e : Expr} {position : Position}
    {source : Target.Expr} {other : SymbolTable}
    (hsame : place.Same (target :: e.names) table other) (h : expr place table e = .ok source) :
    Judged (other.visits [.stores target (some op) e position])
      ((updateOp (table.typeOf (.name target position)) (table.typeOf e) op).operator?.toList.map
        fun operator => ⟨operator, place.reference table target, source⟩) := by
  have hvalue := hsame.mono (List.subset_cons_self target e.names)
  have htarget := hsame target List.mem_cons_self
  have htype : table.typeOf (.name target position) = other.typeOf (.name target position) :=
    Place.Same.declared htarget
  rw [hvalue.typeOf, htype, Place.Same.reference htarget]
  cases hoperator : (updateOp (other.typeOf (.name target position)) (other.typeOf e)
      op).operator? with
  | none => exact .nil
  | some operator => exact .single place (.update hoperator (hvalue.expr ▸ h))

theorem effect_judged {e : Expr} {out : List Target.Stmt} {c : Inspection}
    (hsame : place.Same e.names table c.symbols)
    (h : (effect place e).outcome table = (.ok out, after)) :
    Judged (c.symbols.visits e.checks) (allApplications out) := by
  unfold effect at h
  split at h
  · next target e position =>
      obtain ⟨source, hsource, hrest⟩ := (Reads.value place e).exists_of_bind h
      cases hrest
      have hvalue : Judged (c.symbols.visits (Expr.assign target none e position).checks)
          (source.applications ++ []) :=
        assign_judged (hsame.mono (List.subset_cons_self ..)) hsource fun _ _ => .nil
      rw [List.append_nil] at hvalue
      simpa only [allApplications, Target.Stmt.applications, reference_applications,
        List.nil_append, List.append_nil] using hvalue
  · cases h
  · next target op e position _ =>
      obtain ⟨targetType, htarget, hrest⟩ :=
        (Reads.typeOf (.name target position)).exists_of_bind h
      obtain ⟨sourceType, htype, hrest⟩ := (Reads.typeOf e).exists_of_bind hrest
      obtain ⟨source, hsource, hrest⟩ := (Reads.value place e).exists_of_bind hrest
      cases htarget
      cases htype
      cases hrest
      have hvalue := hsame.mono (List.subset_cons_self ..)
      simp only [allApplications, Target.Stmt.applications, reference_applications,
        List.nil_append, List.append_nil]
      refine assign_judged hvalue hsource fun behind hbehind => ?_
      exact update_judged (hsame.behind hbehind) (Prod.mk.inj hsource).1
  · next target op form position =>
      cases h
      have hname := Place.Same.reference (hsame target List.mem_cons_self)
      have hstep : Judged (c.symbols.visits [.steps target op position])
          [⟨stepOperator op, place.reference table target, .number "1"⟩] :=
        .single place (hname ▸ .step target op position)
      simp only [allApplications, Target.Stmt.applications, reference_applications]
      cases op <;> exact hstep
  · obtain ⟨value, hvalue, hpure⟩ := (Reads.value place e).exists_of_bind h
    cases hpure
    simpa only [allApplications, Target.Stmt.applications, List.append_nil] using
      value_judged hsame hvalue

theorem effects_judged {list : List Expr} {out : List Target.Stmt} {c : Inspection}
    (hsame : place.Same (namesIn list) table c.symbols)
    (h : (effects place list).outcome table = (.ok out, after)) :
    Judged (c.symbols.visits (list.flatMap Expr.checks)) (allApplications out) := by
  induction list generalizing out after c with
  | nil =>
      cases h
      exact .nil
  | cons first rest ih =>
      obtain ⟨lines, hlines, hrest⟩ := (Reads.effect place first).exists_of_bind h
      obtain ⟨more, hmore, hpure⟩ := (Reads.effects place rest).exists_of_bind hrest
      cases hpure
      have hfirst := effect_judged (hsame.mono (List.subset_append_left ..)) hlines
      have hbehind := (hsame.mono (List.subset_append_right first.names (namesIn rest))).behind
        (Inspection.expr_bare first c)
      rw [Target.allApplications_append]
      exact hfirst.before.append (.behind (Inspection.run_expr first c) (ih hbehind hmore))

theorem format_judged {e : Expr} {out : Target.Expr} {c : Inspection}
    (hsame : place.Same e.names table c.symbols)
    (h : (format place e).outcome table = (.ok out, after)) :
    Judged (c.symbols.visits e.checks) out.applications := by
  unfold format at h
  split at h
  · cases h
    exact .nil
  · exact value_judged hsame h

theorem shown_judged {args : List Expr} {out : List Target.Expr} {c : Inspection} (newline : Bool)
    (hsame : place.Same (namesIn (args.take 1)) table c.symbols)
    (h : (values place (args.take 1)).outcome table = (.ok out, after)) :
    Judged (c.symbols.visits (args.flatMap Expr.checks))
      (allApplications [.print out.head? newline]) := by
  have hvalues : Judged (c.symbols.visits (args.flatMap Expr.checks))
      (out.flatMap Target.Expr.applications) := by
    rw [← List.take_append_drop 1 args, List.flatMap_append]
    exact (values_judged hsame h).before
  intro operation hoperation
  refine hvalues operation ?_
  cases out with
  | nil => cases hoperation
  | cons first rest =>
      rw [List.flatMap_cons]
      simp only [allApplications, Target.Stmt.applications, List.append_nil, List.head?_cons]
        at hoperation
      exact List.mem_append_left _ hoperation

theorem print_judged {kind : PrintKind} {args : List Expr} {out : List Target.Stmt}
    {c : Inspection} (hsame : place.Same (namesIn (kind.shown args)) table c.symbols)
    (h : (print place kind args).outcome table = (.ok out, after)) :
    Judged (c.symbols.visits (args.flatMap Expr.checks)) (allApplications out) := by
  cases kind with
  | println =>
      obtain ⟨values, hvalues, hpure⟩ := (Reads.values place (args.take 1)).exists_of_bind h
      cases hpure
      exact shown_judged true hsame hvalues
  | print =>
      obtain ⟨values, hvalues, hpure⟩ := (Reads.values place (args.take 1)).exists_of_bind h
      cases hpure
      exact shown_judged false hsame hvalues
  | printf =>
      cases args with
      | nil =>
          cases h
          exact .nil
      | cons first rest =>
          obtain ⟨text, htext, hrest⟩ := (Reads.format place first).exists_of_bind h
          obtain ⟨values, hvalues, hpure⟩ := (Reads.values place rest).exists_of_bind hrest
          cases hpure
          have hfirst := format_judged (hsame.mono (List.subset_append_left ..)) htext
          have hbehind := (hsame.mono (List.subset_append_right first.names (namesIn rest))).behind
            (Inspection.expr_bare first c)
          have hmore := values_judged hbehind hvalues
          simp only [allApplications, Target.Stmt.applications, List.append_nil]
          exact hfirst.before.append (.behind (Inspection.run_expr first c) hmore)

theorem boundBehind_cases (loop : RangeLoop) (bound : Target.Expr) :
    (∃ text, boundBehind loop bound = .number text) ∨
      ∃ operator, (operator = .add ∨ operator = .sub) ∧
        boundBehind loop bound = .binary operator bound (.number "1") := by
  unfold boundBehind
  split
  · exact .inl ⟨_, rfl⟩
  · split
    · exact .inr ⟨.add, .inl rfl, rfl⟩
    · exact .inr ⟨.sub, .inr rfl, rfl⟩

/-- The bound of a counting loop, and the step behind it if the comparison lets it be reached. -/
theorem bound_judged {loop : RangeLoop} {op : BinaryOp} {bound : Target.Expr} {c : Inspection}
    (position : Position) (hop : loop.inclusive = true → op = .le ∨ op = .ge)
    (hsame : place.Same loop.stop.names table c.symbols)
    (h : (value place loop.stop).outcome table = (.ok bound, after)) :
    Judged (c.symbols.visits (Expr.binary op (.name loop.counter position) loop.stop).checks)
      (if loop.inclusive then boundBehind loop bound else bound).applications := by
  have hcounter : (c.run [.reads loop.counter position]).symbols = c.symbols := by
    rw [Inspection.symbols_run]
    exact Check.after_eq ..
  have hstop : expr place c.symbols loop.stop = .ok bound :=
    hsame.expr.symm.trans (Prod.mk.inj h).1
  have hbound : Judged (c.symbols.visits ([.reads loop.counter position] ++ loop.stop.checks))
      bound.applications := .behind rfl (hcounter ▸ expr_judged hstop)
  rw [Expr.checks, Expr.checks]
  split
  · next hinclusive =>
      obtain ⟨text, htext⟩ | ⟨operator, hoperator, hbehind⟩ := boundBehind_cases loop bound
      · rw [htext]
        exact .nil
      · have hlast : expr place ((c.run [.reads loop.counter position]).run
            loop.stop.checks).symbols loop.stop = .ok bound := by
          rw [expr_behind, hcounter, hstop]
        have hstep : Judged (c.symbols.visits ([.reads loop.counter position] ++
            loop.stop.checks ++ [.applies op (.name loop.counter position) loop.stop]))
            [⟨operator, bound, .number "1"⟩] :=
          .behind (Inspection.run_append c ..).symm
            (.single place (.bound (hop hinclusive) hoperator hlast))
        have hcomputes : operator.computes = true := by
          obtain rfl | rfl := hoperator <;> rfl
        rw [hbehind, Target.Expr.applications, if_pos hcomputes]
        exact (hbound.append .nil).before.append hstep
  · exact hbound.before

end Expressions

end Lowering

end MiniJava
