import MiniJava.Lowering.Program
import MiniJava.Proofs.Lowering.Inversion

/-!
# Scopes that are left again

A lowering changes nothing but the innermost scope. A scope that is opened for statements is
therefore gone behind them, and what stands in scopes of its own leaves the table as it is, also
where it cannot be lowered.
-/

namespace MiniJava.Lowering

variable {α β : Type}

def Stays (action : Lowering α) : Prop :=
  ∀ table, (action.outcome table).2.enclosing = table.enclosing

theorem Reads.stays {action : Lowering α} (h : Reads action) : Stays action :=
  fun table => congrArg SymbolTable.enclosing (h table)

namespace Stays

theorem bind {action : Lowering α} {next : α → Lowering β} (h : Stays action)
    (hnext : ∀ a, Stays (next a)) : Stays (action >>= next) := by
  intro table
  have htable := h table
  rw [outcome_bind]
  cases haction : action.outcome table with
  | mk result between =>
      rw [haction] at htable
      cases result with
      | error error => exact htable
      | ok a => exact (hnext a between).trans htable

theorem append {front back : Lowering (List α)} (hfront : Stays front) (hback : Stays back) :
    Stays (do return (← front) ++ (← back)) :=
  hfront.bind fun _ => hback.bind fun _ => (Reads.pure _).stays

theorem declare (name : String) (type : ValueType) (position : Position) :
    Stays (declare name type position) := by
  intro table
  rw [outcome_declare]
  unfold SymbolTable.bring
  split <;> rfl

/-- A scope that is opened for an action is gone behind it. -/
theorem leave_eq {action : Lowering α} (h : Stays action) {table inner : SymbolTable}
    {result : Except Failure α} (hout : action.outcome table.enter = (result, inner)) :
    inner.leave = table := by
  have henclosing := h table.enter
  rw [hout] at henclosing
  rw [SymbolTable.leave, henclosing]
  rfl

end Stays

theorem Reads.inScope {action : Lowering α} (h : Stays action) : Reads (inScope action) :=
  fun _ => h.leave_eq rfl

theorem rangeBounds_stays (place : Place) (loop : RangeLoop) : Stays (rangeBounds place loop) :=
  (Reads.value place _).stays.bind fun _ => (Reads.value place _).stays.bind fun _ =>
    (Reads.refuseOverflow _).stays.bind fun _ => (Stays.declare _ _ _).bind fun _ =>
      (Reads.pure _).stays

mutual

theorem stmt_stays (place : Place) (shared : Bool) : (s : Stmt) → Stays (stmt place shared s)
  | .declare decl => by
      rw [stmt]
      exact (Reads.initial place decl).stays.bind fun _ => (Stays.declare _ _ _).bind fun _ =>
        (Reads.reference place _).stays.bind fun _ => (Reads.pure _).stays
  | .expression e => by
      rw [stmt]
      exact (Reads.effect place e).stays
  | .block body => by
      have hbody := stmts_stays place body
      rw [stmt]
      split
      · exact hbody
      · exact (Reads.inScope hbody).stays
  | .ifElse e thenBranch elseBranch => by
      have hthen := Reads.inScope (stmt_stays place true thenBranch)
      have helse := alternative_reads place elseBranch
      rw [stmt]
      exact ((Reads.value place e).bind fun _ => hthen.bind fun _ => helse.bind fun _ =>
        Reads.pure _).stays
  | .whileLoop e body => by
      have hbody := Reads.inScope (stmt_stays place true body)
      rw [stmt]
      exact ((Reads.value place e).bind fun _ => hbody.bind fun _ => Reads.pure _).stays
  | .doWhile body e => by
      have hbody := stmt_stays place true body
      rw [stmt]
      exact ((Reads.inScope (hbody.bind fun _ => (Reads.value place e).stays.bind fun _ =>
        (Reads.pure _).stays)).bind fun _ => Reads.pure _).stays
  | .forLoop none e update body => by
      have hround := Reads.inScope ((stmt_stays place true body).append
        (Reads.effects place update).stays)
      rw [stmt]
      exact (Reads.inScope ((Reads.loopCondition place e).bind fun _ => hround.bind fun _ =>
        Reads.pure _).stays).stays
  | .forLoop (some init) e update body => by
      have hinit := stmt_stays place false init
      have hbody := stmt_stays place true body
      have hround := Reads.inScope (hbody.append (Reads.effects place update).stays)
      rw [stmt]
      refine (Reads.inScope ?_).stays
      split
      · exact (rangeBounds_stays place _).bind fun _ => ((Reads.reference place _).bind fun _ =>
          (Reads.inScope hbody).bind fun _ => Reads.pure _).stays
      · exact (Reads.refuseOverflow _).stays.bind fun _ => hinit.bind fun _ =>
          ((Reads.loopCondition place e).bind fun _ => hround.bind fun _ => Reads.pure _).stays
  | .switch scrutinee cases default => by
      have hgroups := groups_reads place cases
      have hdefault := defaultBody_reads place default
      rw [stmt]
      exact ((Reads.value place scrutinee).bind fun subject => (hgroups subject none).bind fun _ =>
        hdefault.bind fun _ => Reads.pure _).stays
  | .tryCatch body catches cleanup => by
      have hbody := Reads.inScope (stmts_stays place body)
      have hhandlers := handlers_reads place catches
      have hcleanup := cleanupBody_reads place cleanup
      rw [stmt]
      exact (hbody.bind fun _ => hhandlers.bind fun _ => hcleanup.bind fun _ =>
        Reads.pure _).stays
  | .print kind args _ => by
      rw [stmt]
      exact (Reads.print place kind args).stays
  | .returns (some e) _ => by
      rw [stmt]
      exact ((Reads.value place e).bind fun _ => Reads.pure _).stays
  | .returns none _ | .breaks | .continues | .empty => by
      rw [stmt]
      exact (Reads.pure _).stays

theorem stmts_stays (place : Place) : (body : List Stmt) → Stays (stmts place body)
  | [] => by
      rw [stmts]
      exact (Reads.pure _).stays
  | first :: rest => by
      rw [stmts]
      exact (stmt_stays place false first).append (stmts_stays place rest)

theorem alternative_reads (place : Place) :
    (branch : Option Stmt) → Reads (alternative place branch)
  | none => by
      rw [alternative]
      exact Reads.pure _
  | some branch => by
      have hbranch := Reads.inScope (stmt_stays place true branch)
      cases branch with
      | ifElse e thenBranch elseBranch =>
          have hthen := Reads.inScope (stmt_stays place true thenBranch)
          have helse := alternative_reads place elseBranch
          rw [alternative]
          exact (Reads.value place e).bind fun _ => hthen.bind fun _ => helse.bind fun _ =>
            Reads.pure _
      | _ =>
          rw [alternative]
          · exact hbranch.bind fun _ => Reads.pure _
          · nofun

theorem caseBody_stays (place : Place) : (body : List Stmt) → Stays (caseBody place body)
  | [] => by
      rw [caseBody]
      exact (Reads.pure _).stays
  | first :: rest => by
      have hboth := (stmt_stays place false first).append (caseBody_stays place rest)
      by_cases hbreak : first = .breaks
      · rw [hbreak, caseBody]
        exact (Reads.pure _).stays
      · rw [caseBody]
        · exact hboth
        · exact hbreak

theorem groups_reads (place : Place) : (cases : List (SwitchCase Stmt)) →
    ∀ (subject : Target.Expr) (pending : Option Target.Expr),
      Reads (groups place subject pending cases)
  | [], subject, pending => by
      rw [groups]
      exact Reads.pure _
  | ⟨label, body⟩ :: rest, subject, pending => by
      have hbody := Reads.inScope (caseBody_stays place body)
      have hrest := groups_reads place rest subject
      rw [groups]
      refine (Reads.value place label).bind fun test => ?_
      split
      · exact hrest _
      · exact hbody.bind fun _ => (hrest none).bind fun _ => Reads.pure _

theorem defaultBody_reads (place : Place) :
    (default : Option (List Stmt)) → Reads (defaultBody place default)
  | none => by
      rw [defaultBody]
      exact Reads.pure _
  | some body => by
      rw [defaultBody]
      exact (Reads.inScope (caseBody_stays place body)).bind fun _ => Reads.pure _

theorem handlers_reads (place : Place) :
    (catches : List (CatchClause Stmt)) → Reads (handlers place catches)
  | [] => by
      rw [handlers]
      exact Reads.pure _
  | ⟨exception, name, body, position⟩ :: rest => by
      have hbody := stmts_stays place body
      have hrest := handlers_reads place rest
      rw [handlers]
      exact (Reads.inScope ((Stays.declare _ _ _).bind fun _ => hbody)).bind fun _ =>
        hrest.bind fun _ => Reads.pure _

theorem cleanupBody_reads (place : Place) :
    (cleanup : Option (List Stmt)) → Reads (cleanupBody place cleanup)
  | none => by
      rw [cleanupBody]
      exact Reads.pure _
  | some body => by
      rw [cleanupBody]
      exact (Reads.inScope (stmts_stays place body)).bind fun _ => Reads.pure _

end

theorem declareParams_stays (params : List Param) : Stays (declareParams params) := by
  induction params with
  | nil => exact (Reads.pure _).stays
  | cons first rest ih => exact (Stays.declare _ _ _).bind fun _ => ih

theorem method_reads (place : Place) (decl : Method) : Reads (method place decl) :=
  (Reads.inScope ((declareParams_stays decl.params).bind fun _ => stmts_stays _ decl.body)).bind
    fun _ => Reads.pure _

theorem fields_stays (place : Place) (members : List Member) : Stays (fields place members) := by
  induction members with
  | nil => exact (Reads.pure _).stays
  | cons member rest ih =>
      cases member with
      | field decl =>
          exact (Reads.initial place decl).stays.bind fun _ => (Stays.declare _ _ _).bind fun _ =>
            ih.bind fun _ => (Reads.pure _).stays
      | method decl => exact ih
      | nested decl => exact ih

mutual

/-- Nothing of a class stays in scope behind it. -/
theorem classDecl_reads : (decl : ClassDecl) → Reads (classDecl decl)
  | ⟨_, name, members, _⟩ => by
      have hdefinitions place := definitions_reads place members
      rw [classDecl]
      exact Reads.inScope (Reads.get.stays.bind fun _ => (fields_stays _ members).bind fun _ =>
        ((hdefinitions _).bind fun _ => Reads.pure _).stays)

theorem definitions_reads (place : Place) :
    (members : List Member) → Reads (definitions place members)
  | [] => by
      rw [definitions]
      exact Reads.pure _
  | .field _ :: rest => by
      rw [definitions]
      exact definitions_reads place rest
  | .method decl :: rest => by
      rw [definitions]
      exact (method_reads place decl).bind fun _ => (definitions_reads place rest).bind fun _ =>
        Reads.pure _
  | .nested decl :: rest => by
      rw [definitions]
      exact (classDecl_reads decl).bind fun _ => (definitions_reads place rest).bind fun _ =>
        Reads.pure _

end

end MiniJava.Lowering
