import MiniJava.Proofs.Diagnostics.Typed
import MiniJava.Lowering.RangeLoop

/-!
# Loops of a program with the checker's tables

The `for` loops with a first part in a program, each with the table that the checker has in front of
it: the checks of a loop are made in a row from that table on. So in a clean program all of them
pass.
-/

namespace MiniJava

/-- A `for` loop of a method with the return type `expected`, and the table in front of it. -/
structure Loop where
  table : SymbolTable
  expected : Option ValueType
  init : Stmt
  condition : Option Expr
  update : List Expr
  body : Stmt

namespace Loop

def stmt (loop : Loop) : Stmt := .forLoop (some loop.init) loop.condition loop.update loop.body

/-- The range that the loop goes over, if it counts. -/
def range? (loop : Loop) : Option RangeLoop :=
  RangeLoop.detect? loop.init loop.condition loop.update loop.body

def checks (loop : Loop) : List Check := loop.stmt.checks loop.expected

def begun (loop : Loop) : SymbolTable := loop.table.enter.run (loop.init.checks loop.expected)

def Clean (loop : Loop) : Prop := loop.table.Clean loop.checks

end Loop

mutual

def Stmt.loops (expected : Option ValueType) (table : SymbolTable) : Stmt → List Loop
  | .block body => bodyLoops expected table.enter body
  | .ifElse e thenBranch none => thenBranch.loops expected (table.run (Conditional.ifElse.checks e))
  | .ifElse e thenBranch (some elseBranch) =>
    thenBranch.loops expected (table.run (Conditional.ifElse.checks e)) ++
      elseBranch.loops expected
        (table.run (Conditional.ifElse.checks e ++ thenBranch.checks expected))
  | .whileLoop e body => body.loops expected (table.run (Conditional.whileLoop.checks e))
  | .doWhile body _ => body.loops expected table
  | .forLoop none e update body => body.loops expected (table.enter.run (headerChecks e update))
  | .forLoop (some init) e update body =>
    ⟨table, expected, init, e, update, body⟩ :: (init.loops expected table.enter ++
      body.loops expected (table.enter.run (init.checks expected ++ headerChecks e update)))
  | .switch scrutinee cases none =>
    caseLoops expected (table.run (scrutinee.checks ++ [.enter])) cases
  | .switch scrutinee cases (some default) =>
    caseLoops expected (table.run (scrutinee.checks ++ [.enter])) cases ++
      bodyLoops expected
        (table.run (scrutinee.checks ++ [.enter] ++ caseChecks expected cases)) default
  | .tryCatch body catches none =>
    bodyLoops expected table.enter body ++
      catchLoops expected (table.run (.enter :: bodyChecks expected body ++ [.leave])) catches
  | .tryCatch body catches (some cleanup) =>
    bodyLoops expected table.enter body ++
      catchLoops expected (table.run (.enter :: bodyChecks expected body ++ [.leave])) catches ++
      bodyLoops expected (table.run (.enter :: bodyChecks expected body ++ [.leave] ++
        catchChecks expected catches ++ [.enter])) cleanup
  | .declare _ | .expression _ | .print _ _ _ | .returns _ _ | .breaks | .continues | .empty => []

def bodyLoops (expected : Option ValueType) (table : SymbolTable) : List Stmt → List Loop
  | [] => []
  | first :: rest =>
    first.loops expected table ++ bodyLoops expected (table.run (first.checks expected)) rest

def caseLoops (expected : Option ValueType) (table : SymbolTable) :
    List (SwitchCase Stmt) → List Loop
  | [] => []
  | ⟨value, body⟩ :: rest =>
    bodyLoops expected (table.run value.checks) body ++
      caseLoops expected (table.run (value.checks ++ bodyChecks expected body)) rest

def catchLoops (expected : Option ValueType) (table : SymbolTable) :
    List (CatchClause Stmt) → List Loop
  | [] => []
  | ⟨exception, name, body, position⟩ :: rest =>
    bodyLoops expected (table.run [.enter, .declares exception name position true false]) body ++
      catchLoops expected (table.run
        (.enter :: (.declares exception name position true false :: bodyChecks expected body) ++
          [.leave])) rest

end

def Method.loops (table : SymbolTable) (decl : Method) : List Loop :=
  bodyLoops (some decl.expected) (table.run (.enter :: decl.params.map Param.check)) decl.body

mutual

def classLoops (table : SymbolTable) : ClassDecl → List Loop
  | ⟨_, _, members, _⟩ => memberLoops (table.run (.enter :: fieldChecks members)) members

def memberLoops (table : SymbolTable) : List Member → List Loop
  | [] => []
  | .field _ :: rest => memberLoops table rest
  | .method decl :: rest => decl.loops table ++ memberLoops (table.run decl.checks) rest
  | .nested decl :: rest => classLoops table decl ++ memberLoops (table.run (classChecks decl)) rest

end

def Item.loops (table : SymbolTable) : Item → List Loop
  | .declaration decl => classLoops table decl
  | .statement s => s.loops none table

def itemLoops (table : SymbolTable) : List Item → List Loop
  | [] => []
  | first :: rest => first.loops table ++ itemLoops (table.run first.checks) rest

/-- The `for` loops of a program with the checker's tables. -/
def Program.loops (program : Program) : List Loop := itemLoops .empty program.items

/-- The checks of each of these loops are made in a row among those of a sequence, with the tables
that the earlier ones leave. -/
def Found (table : SymbolTable) (checks : List Check) (loops : List Loop) : Prop :=
  ∀ loop ∈ loops, loop.table.visits loop.checks <:+: table.visits checks

namespace Found

variable {table : SymbolTable} {checks more : List Check} {loops others : List Loop}

theorem append (h : Found table checks loops) (hothers : Found table checks others) :
    Found table checks (loops ++ others) := List.forall_mem_append.mpr ⟨h, hothers⟩

theorem front (h : Found table checks loops) : Found table (checks ++ more) loops := by
  intro loop hloop
  rw [SymbolTable.visits_append]
  exact (h loop hloop).trans (List.prefix_append _ _).isInfix

theorem behind (h : Found (table.run checks) more loops) : Found table (checks ++ more) loops := by
  intro loop hloop
  rw [SymbolTable.visits_append]
  exact (h loop hloop).trans (List.suffix_append _ _).isInfix

theorem enclosed (h : Found table.enter checks loops) :
    Found table (.enter :: checks ++ [.leave]) loops := by
  have hentered : Found (table.run [.enter]) checks loops := h
  exact hentered.behind.front

end Found

theorem SymbolTable.run_enter (table : SymbolTable) (checks : List Check) :
    table.run (checks ++ [.enter]) = (table.run checks).enter := table.run_append checks [.enter]

open SymbolTable (run_append run_enter)

mutual

theorem stmt_loops_found (expected : Option ValueType) : (s : Stmt) → ∀ (table : SymbolTable),
    Found table (s.checks expected) (s.loops expected table)
  | .block body, table => (body_loops_found expected body table.enter).enclosed
  | .ifElse e thenBranch none, table => (stmt_loops_found expected thenBranch _).behind
  | .ifElse e thenBranch (some elseBranch), table =>
      (stmt_loops_found expected thenBranch _).behind.front.append
        (stmt_loops_found expected elseBranch _).behind
  | .whileLoop e body, table => (stmt_loops_found expected body _).behind
  | .doWhile body e, table => (stmt_loops_found expected body table).front
  | .forLoop none e update body, table => (stmt_loops_found expected body _).behind.enclosed
  | .forLoop (some init) e update body, table => by
      have hinit := stmt_loops_found expected init table.enter
      have hbody := stmt_loops_found expected body
        (table.enter.run (init.checks expected ++ headerChecks e update))
      refine List.forall_mem_cons.mpr ⟨List.infix_rfl, ?_⟩
      exact (hinit.front.front.append hbody.behind).enclosed
  | .switch scrutinee cases none, table => by
      rw [Stmt.loops, run_enter]
      exact (case_loops_found expected cases _).enclosed.behind
  | .switch scrutinee cases (some default), table => by
      rw [Stmt.loops, run_append _ (scrutinee.checks ++ [Check.enter]), run_enter]
      have hcases := case_loops_found expected cases (table.run scrutinee.checks).enter
      have hdefault := body_loops_found expected default
        ((table.run scrutinee.checks).enter.run (caseChecks expected cases))
      exact (hcases.front.append hdefault.behind).enclosed.behind
  | .tryCatch body catches none, table =>
      (body_loops_found expected body table.enter).enclosed.front.append
        (catch_loops_found expected catches _).behind
  | .tryCatch body catches (some cleanup), table => by
      rw [Stmt.loops, run_enter]
      have hbody := body_loops_found expected body table.enter
      have hcatches := catch_loops_found expected catches
        (table.run (.enter :: bodyChecks expected body ++ [.leave]))
      exact (hbody.enclosed.front.front.append hcatches.behind.front).append
        (body_loops_found expected cleanup _).enclosed.behind
  | .declare _, _ | .expression _, _ | .print _ _ _, _ | .returns _ _, _ | .breaks, _
  | .continues, _ | .empty, _ => nofun

theorem body_loops_found (expected : Option ValueType) : (body : List Stmt) →
    ∀ (table : SymbolTable), Found table (bodyChecks expected body) (bodyLoops expected table body)
  | [], _ => nofun
  | first :: rest, table =>
      (stmt_loops_found expected first table).front.append
        (body_loops_found expected rest _).behind

theorem case_loops_found (expected : Option ValueType) : (cases : List (SwitchCase Stmt)) →
    ∀ (table : SymbolTable), Found table (caseChecks expected cases)
      (caseLoops expected table cases)
  | [], _ => nofun
  | ⟨_, body⟩ :: rest, _ =>
      (body_loops_found expected body _).behind.front.append
        (case_loops_found expected rest _).behind

theorem catch_loops_found (expected : Option ValueType) : (catches : List (CatchClause Stmt)) →
    ∀ (table : SymbolTable), Found table (catchChecks expected catches)
      (catchLoops expected table catches)
  | [], _ => nofun
  | ⟨exception, name, body, position⟩ :: rest, table => by
      have hbody := body_loops_found expected body
        (table.run [.enter, .declares exception name position true false])
      exact hbody.behind.front.front.append (catch_loops_found expected rest _).behind

end

theorem method_loops_found (decl : Method) (table : SymbolTable) :
    Found table decl.checks (decl.loops table) :=
  (body_loops_found (some decl.expected) decl.body _).behind.enclosed.front

mutual

theorem class_loops_found : (decl : ClassDecl) → ∀ (table : SymbolTable),
    Found table (classChecks decl) (classLoops table decl)
  | ⟨_, _, members, _⟩, table => by
      rw [classChecks, classLoops]
      exact (member_loops_found members _).behind.enclosed

theorem member_loops_found : (members : List Member) → ∀ (table : SymbolTable),
    Found table (memberChecks members) (memberLoops table members)
  | [], _ => by
      rw [memberLoops]
      nofun
  | .field _ :: rest, table => by
      rw [memberChecks, memberLoops]
      exact member_loops_found rest table
  | .method decl :: rest, table => by
      rw [memberChecks, memberLoops]
      exact (method_loops_found decl table).front.append (member_loops_found rest _).behind
  | .nested decl :: rest, table => by
      rw [memberChecks, memberLoops]
      exact (class_loops_found decl table).front.append (member_loops_found rest _).behind

end

theorem item_loops_found (items : List Item) (table : SymbolTable) :
    Found table (items.flatMap Item.checks) (itemLoops table items) := by
  induction items generalizing table with
  | nil => nofun
  | cons first rest ih =>
      have hfirst : Found table first.checks (first.loops table) :=
        match first with
        | .declaration decl => class_loops_found decl table
        | .statement s => stmt_loops_found none s table
      exact hfirst.front.append (ih _).behind

namespace Program

/-- The checker makes the checks of every loop from its table on. -/
theorem loops_found (program : Program) {loop : Loop} (h : loop ∈ program.loops) :
    loop.table.visits loop.checks <:+: program.visits :=
  item_loops_found program.items .empty loop h

theorem loops_clean {program : Program} (h : program.diagnostics = []) {loop : Loop}
    (hloop : loop ∈ program.loops) : loop.Clean := fun visit hvisit =>
  (clean_iff program).mp h visit ((program.loops_found hloop).subset hvisit)

end Program

end MiniJava
