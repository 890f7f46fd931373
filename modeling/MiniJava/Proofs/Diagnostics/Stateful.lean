import MiniJava.Diagnostics.Program

/-!
# The return type as state

A checker can keep the return type of the method that it is in beside its table. A method sets it
and puts back in the end the one that it found, so a method of a nested class does not disturb the
checks around its class. Such a checker finds what the one finds that hands the return type down.
-/

namespace MiniJava

structure Checker where
  inspection : Inspection
  expected : Option ValueType
deriving DecidableEq, Repr, Inhabited

namespace Checker

def inspect (checker : Checker) (action : Inspection → Inspection) : Checker :=
  { checker with inspection := action checker.inspection }

mutual

def stmt (checker : Checker) : Stmt → Checker
  | .declare decl => checker.inspect (·.declaration decl false)
  | .expression e => checker.inspect fun inspection => (inspection.expr e).after
  | .block body => ((checker.inspect .enter).stmts body).inspect .leave
  | .ifElse e thenBranch none => (checker.inspect (·.condition .ifElse e)).stmt thenBranch
  | .ifElse e thenBranch (some elseBranch) =>
    ((checker.inspect (·.condition .ifElse e)).stmt thenBranch).stmt elseBranch
  | .whileLoop e body => (checker.inspect (·.condition .whileLoop e)).stmt body
  | .doWhile body e => (checker.stmt body).inspect (·.condition .doWhile e)
  | .forLoop none e update body =>
    (((checker.inspect .enter).inspect fun inspection =>
      (inspection.forCondition e).exprs update).stmt body).inspect .leave
  | .forLoop (some init) e update body =>
    ((((checker.inspect .enter).stmt init).inspect fun inspection =>
      (inspection.forCondition e).exprs update).stmt body).inspect .leave
  | .switch scrutinee list none =>
    ((checker.inspect fun inspection => (inspection.expr scrutinee).after.enter).cases
      list).inspect .leave
  | .switch scrutinee list (some default) =>
    (((checker.inspect fun inspection => (inspection.expr scrutinee).after.enter).cases
      list).stmts default).inspect .leave
  | .tryCatch body list none =>
    (((checker.inspect .enter).stmts body).inspect .leave).catches list
  | .tryCatch body list (some cleanup) =>
    ((((((checker.inspect .enter).stmts body).inspect .leave).catches list).inspect .enter).stmts
      cleanup).inspect .leave
  | .print _ args _ => checker.inspect (·.exprs args)
  | .returns value position => checker.inspect (·.returned checker.expected position value)
  | .breaks | .continues | .empty => checker

def stmts (checker : Checker) : List Stmt → Checker
  | [] => checker
  | first :: rest => (checker.stmt first).stmts rest

def cases (checker : Checker) : List (SwitchCase Stmt) → Checker
  | [] => checker
  | ⟨value, body⟩ :: rest =>
    ((checker.inspect fun inspection => (inspection.expr value).after).stmts body).cases rest

def catches (checker : Checker) : List (CatchClause Stmt) → Checker
  | [] => checker
  | ⟨exception, name, body, position⟩ :: rest =>
    (((checker.inspect (·.enter.bound exception name position)).stmts body).inspect .leave).catches
      rest

end

def method (checker : Checker) (decl : Method) : Checker :=
  let expected := (decl.returnType.map ValueType.ofTypeName).getD .void
  let begun : Checker :=
    ⟨decl.params.foldl
      (fun inspection param => inspection.bound param.type param.name param.position)
      checker.inspection.enter, some expected⟩
  let checked := (begun.stmts decl.body).inspect .leave
  let reported := checked.inspect
    (·.reportIf (expected ≠ .void && !anyReturn decl.body) decl.position
      (.missingReturn decl.name expected))
  { reported with expected := checker.expected }

mutual

def classDecl (checker : Checker) : ClassDecl → Checker
  | ⟨_, _, list, _⟩ =>
    ((checker.inspect fun inspection => inspection.enter.fields list).members list).inspect .leave

def members (checker : Checker) : List Member → Checker
  | [] => checker
  | .field _ :: rest => checker.members rest
  | .method decl :: rest => (checker.method decl).members rest
  | .nested decl :: rest => (checker.classDecl decl).members rest

end

def item (checker : Checker) : Item → Checker
  | .declaration decl => checker.classDecl decl
  | .statement s => checker.stmt s

mutual

theorem stmt_eq : (s : Stmt) → ∀ checker : Checker,
    checker.stmt s = ⟨checker.inspection.stmt checker.expected s, checker.expected⟩
  | .declare _, _ | .expression _, _ | .print _ _ _, _ | .returns _ _, _ | .breaks, _
  | .continues, _ | .empty, _ => rfl
  | .block body, checker => by
      simp only [stmt, inspect, stmts_eq body, Inspection.stmt]
  | .ifElse e thenBranch none, checker => by
      simp only [stmt, inspect, stmt_eq thenBranch, Inspection.stmt]
  | .ifElse e thenBranch (some elseBranch), checker => by
      simp only [stmt, inspect, stmt_eq thenBranch, stmt_eq elseBranch, Inspection.stmt]
  | .whileLoop e body, checker | .doWhile body e, checker => by
      simp only [stmt, inspect, stmt_eq body, Inspection.stmt]
  | .forLoop none e update body, checker => by
      simp only [stmt, inspect, stmt_eq body, Inspection.stmt]
  | .forLoop (some init) e update body, checker => by
      simp only [stmt, inspect, stmt_eq init, stmt_eq body, Inspection.stmt]
  | .switch scrutinee list none, checker => by
      simp only [stmt, inspect, cases_eq list, Inspection.stmt]
  | .switch scrutinee list (some default), checker => by
      simp only [stmt, inspect, cases_eq list, stmts_eq default, Inspection.stmt]
  | .tryCatch body list none, checker => by
      simp only [stmt, inspect, stmts_eq body, catches_eq list, Inspection.stmt]
  | .tryCatch body list (some cleanup), checker => by
      simp only [stmt, inspect, stmts_eq body, catches_eq list, stmts_eq cleanup, Inspection.stmt]

theorem stmts_eq : (body : List Stmt) → ∀ checker : Checker,
    checker.stmts body = ⟨checker.inspection.stmts checker.expected body, checker.expected⟩
  | [], _ => rfl
  | first :: rest, checker => by
      simp only [stmts, stmt_eq first, stmts_eq rest, Inspection.stmts]

theorem cases_eq : (list : List (SwitchCase Stmt)) → ∀ checker : Checker,
    checker.cases list = ⟨checker.inspection.cases checker.expected list, checker.expected⟩
  | [], _ => rfl
  | ⟨value, body⟩ :: rest, checker => by
      simp only [cases, inspect, stmts_eq body, cases_eq rest, Inspection.cases]

theorem catches_eq : (list : List (CatchClause Stmt)) → ∀ checker : Checker,
    checker.catches list = ⟨checker.inspection.catches checker.expected list, checker.expected⟩
  | [], _ => rfl
  | ⟨exception, name, body, position⟩ :: rest, checker => by
      simp only [catches, inspect, stmts_eq body, catches_eq rest, Inspection.catches]

end

/-- Behind a method the checker has the return type that it had in front of it. -/
theorem method_eq (decl : Method) (checker : Checker) :
    checker.method decl = ⟨checker.inspection.method decl, checker.expected⟩ := by
  simp only [method, inspect, stmts_eq, Inspection.method]

mutual

theorem classDecl_eq : (decl : ClassDecl) → ∀ checker : Checker,
    checker.classDecl decl = ⟨checker.inspection.classDecl decl, checker.expected⟩
  | ⟨_, _, list, _⟩, checker => by
      simp only [classDecl, inspect, members_eq list, Inspection.classDecl]

theorem members_eq : (list : List Member) → ∀ checker : Checker,
    checker.members list = ⟨checker.inspection.members list, checker.expected⟩
  | [], checker => by rw [members, Inspection.members]
  | .field _ :: rest, checker => by rw [members, members_eq rest, Inspection.members]
  | .method decl :: rest, checker => by
      simp only [members, method_eq, members_eq rest, Inspection.members]
  | .nested decl :: rest, checker => by
      simp only [members, classDecl_eq decl, members_eq rest, Inspection.members]

end

theorem items_eq (items : List Item) (inspection : Inspection) :
    items.foldl item ⟨inspection, none⟩ = ⟨items.foldl Inspection.item inspection, none⟩ := by
  induction items generalizing inspection with
  | nil => rfl
  | cons first rest ih =>
      have hfirst : item ⟨inspection, none⟩ first = ⟨inspection.item first, none⟩ := by
        cases first with
        | declaration decl => exact classDecl_eq decl _
        | statement s => exact stmt_eq s _
      rw [List.foldl_cons, List.foldl_cons, hfirst, ih]

end Checker

end MiniJava
