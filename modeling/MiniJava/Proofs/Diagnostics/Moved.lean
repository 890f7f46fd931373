import MiniJava.Diagnostics.Program
import MiniJava.Proofs.Scope.Moved

/-!
# Checking does not look at positions

Checking a program whose positions have been moved finds the same problems in the same order, at
the moved positions. Each step of an inspection can be made before or after the move.
-/

namespace MiniJava

variable (f : Position → Position)

def Problem.moved : Problem → Problem
  | .redeclared name previous => .redeclared name (f previous)
  | other => other

def Diagnostic.moved (diagnostic : Diagnostic) : Diagnostic :=
  ⟨diagnostic.problem.moved f, f diagnostic.position⟩

theorem Diagnostic.kind_moved (diagnostic : Diagnostic) :
    (diagnostic.moved f).kind = diagnostic.kind := by
  obtain ⟨problem, position⟩ := diagnostic
  cases problem <;> rfl

def Inspection.moved (inspection : Inspection) : Inspection :=
  ⟨inspection.symbols.moved f, inspection.diagnostics.map (Diagnostic.moved f)⟩

def Checked.moved (checked : Checked) : Checked := ⟨checked.type, checked.after.moved f⟩

mutual

theorem Stmt.containsReturn_moved : (s : Stmt) → (s.moved f).containsReturn = s.containsReturn
  | .returns _ _ => rfl
  | .block body => anyReturn_moved body
  | .ifElse _ thenBranch none => thenBranch.containsReturn_moved
  | .ifElse _ thenBranch (some elseBranch) => by
      rw [Stmt.moved, branchMoved, Stmt.containsReturn, Stmt.containsReturn,
        thenBranch.containsReturn_moved, elseBranch.containsReturn_moved]
  | .whileLoop _ body => body.containsReturn_moved
  | .doWhile body _ => body.containsReturn_moved
  | .forLoop _ _ _ body => body.containsReturn_moved
  | .switch _ cases none => anyCaseReturn_moved cases
  | .switch _ cases (some default) => by
      rw [Stmt.moved, partMoved, Stmt.containsReturn, Stmt.containsReturn,
        anyCaseReturn_moved cases, anyReturn_moved default]
  | .tryCatch body catches none => by
      rw [Stmt.moved, partMoved, Stmt.containsReturn, Stmt.containsReturn, anyReturn_moved body,
        anyCatchReturn_moved catches]
  | .tryCatch body catches (some cleanup) => by
      rw [Stmt.moved, partMoved, Stmt.containsReturn, Stmt.containsReturn, anyReturn_moved body,
        anyCatchReturn_moved catches, anyReturn_moved cleanup]
  | .declare _ | .expression _ | .print _ _ _ | .breaks | .continues | .empty => rfl

theorem anyReturn_moved : (list : List Stmt) → anyReturn (allMoved f list) = anyReturn list
  | [] => rfl
  | first :: rest => by
      rw [allMoved, anyReturn, anyReturn, first.containsReturn_moved, anyReturn_moved rest]

theorem anyCaseReturn_moved : (list : List (SwitchCase Stmt)) →
    anyCaseReturn (casesMoved f list) = anyCaseReturn list
  | [] => rfl
  | ⟨_, body⟩ :: rest => by
      rw [casesMoved, anyCaseReturn, anyCaseReturn, anyReturn_moved body, anyCaseReturn_moved rest]

theorem anyCatchReturn_moved : (list : List (CatchClause Stmt)) →
    anyCatchReturn (catchesMoved f list) = anyCatchReturn list
  | [] => rfl
  | ⟨_, _, body, _⟩ :: rest => by
      rw [catchesMoved, anyCatchReturn, anyCatchReturn, anyReturn_moved body,
        anyCatchReturn_moved rest]

end

namespace Inspection

variable (inspection : Inspection)

theorem report_moved (position : Position) (problem : Problem) :
    (inspection.moved f).report (f position) (problem.moved f) =
      (inspection.report position problem).moved f := by
  simp only [report, moved, List.map_append, List.map_cons, List.map_nil, Diagnostic.moved]

theorem reportIf_moved (condition : Bool) (position : Position) (problem : Problem) :
    (inspection.moved f).reportIf condition (f position) (problem.moved f) =
      (inspection.reportIf condition position problem).moved f := by
  rw [reportIf, reportIf, report_moved]
  split <;> rfl

theorem enter_moved : (inspection.moved f).enter = inspection.enter.moved f := rfl

theorem leave_moved : (inspection.moved f).leave = inspection.leave.moved f := by
  rw [leave, leave, moved, SymbolTable.leave_moved]
  rfl

theorem declare_moved (name : String) (symbol : Symbol) :
    (inspection.moved f).declare name (symbol.moved f) =
      (inspection.declare name symbol).moved f := by
  have hdeclare := SymbolTable.declare_moved f inspection.symbols name symbol
  have hsymbols : (inspection.moved f).symbols = inspection.symbols.moved f := rfl
  rw [declare, declare, hsymbols, hdeclare]
  cases inspection.symbols.declare name symbol with
  | ok symbols => rfl
  | error previous => exact report_moved f inspection symbol.position (.redeclared name previous)

theorem markInitialized_moved (name : String) :
    (inspection.moved f).markInitialized name = (inspection.markInitialized name).moved f := by
  rw [markInitialized, markInitialized, moved, SymbolTable.markInitialized_moved]
  rfl

theorem lookup?_moved (name : String) :
    (inspection.moved f).symbols.lookup? name =
      (inspection.symbols.lookup? name).map (Symbol.moved f) :=
  SymbolTable.lookup?_moved f inspection.symbols name

theorem read_moved (name : String) (position : Position) :
    (inspection.moved f).read name (f position) = (inspection.read name position).moved f := by
  rw [read, read, lookup?_moved]
  cases inspection.symbols.lookup? name with
  | none => exact congrArg (Checked.mk none) (report_moved f inspection position (.undeclared name))
  | some symbol =>
      exact congrArg (Checked.mk (some symbol.type))
        (reportIf_moved f inspection _ position (.uninitialized name))

theorem write_moved (name : String) (position : Position) :
    (inspection.moved f).write name (f position) = (inspection.write name position).moved f := by
  rw [write, write, lookup?_moved]
  cases inspection.symbols.lookup? name with
  | none => exact report_moved f inspection position (.undeclared name)
  | some symbol => exact reportIf_moved f inspection _ position (.assignToFinal name)

theorem narrows_moved (target : ValueType) (e : Expr) :
    narrows target (e.moved f) = narrows target e := by cases e <;> rfl

theorem assignable_moved (target : ValueType) (source : Option ValueType) (value : Expr)
    (position : Position) :
    (inspection.moved f).assignable target source (value.moved f) (f position) =
      (inspection.assignable target source value position).moved f := by
  cases source with
  | none => rfl
  | some source =>
      rw [assignable, assignable, narrows_moved]
      exact reportIf_moved f inspection _ position (.unassignable source target)

theorem store_moved (symbol : Symbol) (op : Option BinaryOp) (source : Option ValueType)
    (value : Expr) (position : Position) :
    (inspection.moved f).store (symbol.moved f) op source (value.moved f) (f position) =
      (inspection.store symbol op source value position).moved f := by
  cases op with
  | none => exact assignable_moved f inspection symbol.type source value position
  | some op => exact reportIf_moved f inspection _ position (.assignedOperands op _ _)

theorem expr_moved (e : Expr) :
    (inspection.moved f).expr (e.moved f) = (inspection.expr e).moved f := by
  induction e generalizing inspection with
  | literal value position => rfl
  | name text position => exact read_moved f inspection text position
  | binary op lhs rhs ihl ihr =>
      rw [Expr.moved, expr, expr]
      rw [ihl]
      dsimp only [Checked.moved]
      rw [ihr, Expr.position_moved]
      exact congrArg (Checked.mk _) (reportIf_moved f _ _ lhs.position (.operands op _ _))
  | unary op operand ih =>
      rw [Expr.moved, expr, expr]
      rw [ih, Expr.position_moved]
      exact congrArg (Checked.mk _) (reportIf_moved f _ _ operand.position (.operand op _))
  | assign target op value position ih =>
      have hunread : ((inspection.symbols.lookup? target).map (Symbol.moved f)).any
          (fun symbol => !symbol.initialized) =
          (inspection.symbols.lookup? target).any fun symbol => !symbol.initialized := by
        cases inspection.symbols.lookup? target <;> rfl
      have hreport := reportIf_moved f (inspection.write target position)
        (op.isSome && (inspection.symbols.lookup? target).any fun symbol => !symbol.initialized)
        position (.uninitialized target)
      rw [Expr.moved, expr, expr]
      rw [lookup?_moved, hunread, write_moved]
      simp only [Problem.moved] at hreport
      rw [hreport, ih]
      cases inspection.symbols.lookup? target with
      | none => rfl
      | some symbol =>
          simp only [Option.map_some, Checked.moved]
          rw [store_moved, markInitialized_moved]
          rfl
  | step target op form position =>
      rw [Expr.moved, expr, expr]
      rw [read_moved]
      cases htype : (inspection.read target position).type with
      | none => simp only [Checked.moved, htype]
      | some type =>
          simp only [Checked.moved, htype, write_moved]
          exact congrArg (Checked.mk (some type)) (reportIf_moved f _ _ position (.stepped op type))

theorem exprs_moved (list : List Expr) :
    (inspection.moved f).exprs (list.map (Expr.moved f)) = (inspection.exprs list).moved f := by
  induction list generalizing inspection with
  | nil => rfl
  | cons first rest ih =>
      have hfirst := congrArg Checked.after (expr_moved f inspection first)
      change ((inspection.moved f).expr (first.moved f)).after.exprs (rest.map (Expr.moved f)) = _
      rw [hfirst]
      exact ih _

theorem condition_moved (statement : Conditional) (e : Expr) :
    (inspection.moved f).condition statement (e.moved f) =
      (inspection.condition statement e).moved f := by
  rw [condition, condition]
  rw [expr_moved, Expr.position_moved]
  cases htype : (inspection.expr e).type with
  | none => simp only [Checked.moved, htype]
  | some type =>
      simp only [Checked.moved, htype]
      exact reportIf_moved f _ _ e.position (.nonBooleanCondition statement type)

theorem declaration_moved (decl : VarDecl) (initialized : Bool) :
    (inspection.moved f).declaration (decl.moved f) initialized =
      (inspection.declaration decl initialized).moved f := by
  obtain ⟨modifiers, type, name, init, position⟩ := decl
  cases init with
  | none =>
      exact declare_moved f inspection name
        ⟨.ofTypeName type, position, initialized || false, modifiers.contains .final⟩
  | some value =>
      rw [declaration, declaration]
      simp only [VarDecl.moved, Option.map_some, expr_moved, Checked.moved, assignable_moved]
      exact declare_moved f _ name
        ⟨.ofTypeName type, position, initialized || true, modifiers.contains .final⟩

theorem bound_moved (type : TypeName) (name : String) (position : Position) :
    (inspection.moved f).bound type name (f position) =
      (inspection.bound type name position).moved f :=
  declare_moved f inspection name ⟨.ofTypeName type, position, true, false⟩

theorem returned_moved (expected : Option ValueType) (position : Position) (value : Option Expr) :
    (inspection.moved f).returned expected (f position) (value.map (Expr.moved f)) =
      (inspection.returned expected position value).moved f := by
  cases value with
  | none =>
      cases expected with
      | none => rfl
      | some expected => exact reportIf_moved f inspection _ position (.missingValue expected)
  | some value =>
      cases expected with
      | none =>
          rw [Option.map_some, returned, returned, expr_moved]
          rfl
      | some expected =>
          by_cases hvoid : expected = .void
          · rw [hvoid, Option.map_some, returned, returned, expr_moved]
            exact report_moved f _ position .valueFromVoid
          · rw [Option.map_some, returned, returned, expr_moved]
            · cases htype : (inspection.expr value).type with
              | none => simp only [Checked.moved, htype]
              | some type =>
                  simp only [Checked.moved, htype]
                  exact reportIf_moved f _ _ position (.returnMismatch type expected)
            · exact hvoid
            · exact hvoid

theorem forCondition_moved (e : Option Expr) :
    (inspection.moved f).forCondition (e.map (Expr.moved f)) =
      (inspection.forCondition e).moved f := by
  cases e with
  | none => rfl
  | some e => exact condition_moved f inspection .forLoop e

mutual

theorem stmt_moved (expected : Option ValueType) (inspection : Inspection) : (s : Stmt) →
    (inspection.moved f).stmt expected (s.moved f) = (inspection.stmt expected s).moved f
  | .declare decl => declaration_moved f inspection decl false
  | .expression e => congrArg Checked.after (expr_moved f inspection e)
  | .block body => by
      rw [Stmt.moved, stmt, stmt, enter_moved, stmts_moved expected _ body, leave_moved]
  | .ifElse e thenBranch none => by
      rw [Stmt.moved, branchMoved, stmt, stmt, condition_moved, stmt_moved expected _ thenBranch]
  | .ifElse e thenBranch (some elseBranch) => by
      rw [Stmt.moved, branchMoved, stmt, stmt, condition_moved, stmt_moved expected _ thenBranch,
        stmt_moved expected _ elseBranch]
  | .whileLoop e body => by
      rw [Stmt.moved, stmt, stmt, condition_moved, stmt_moved expected _ body]
  | .doWhile body e => by
      rw [Stmt.moved, stmt, stmt, stmt_moved expected _ body, condition_moved]
  | .forLoop none e update body => by
      rw [Stmt.moved, branchMoved, stmt, stmt, enter_moved, forCondition_moved, exprs_moved,
        stmt_moved expected _ body, leave_moved]
  | .forLoop (some init) e update body => by
      rw [Stmt.moved, branchMoved, stmt, stmt, enter_moved, stmt_moved expected _ init,
        forCondition_moved, exprs_moved, stmt_moved expected _ body, leave_moved]
  | .switch scrutinee cases none => by
      rw [Stmt.moved, partMoved, stmt, stmt, expr_moved, Checked.moved, enter_moved,
        cases_moved expected _ cases, leave_moved]
  | .switch scrutinee cases (some default) => by
      rw [Stmt.moved, partMoved, stmt, stmt, expr_moved, Checked.moved, enter_moved,
        cases_moved expected _ cases, stmts_moved expected _ default, leave_moved]
  | .tryCatch body catches none => by
      rw [Stmt.moved, partMoved, stmt, stmt, enter_moved, stmts_moved expected _ body, leave_moved,
        catches_moved expected _ catches]
  | .tryCatch body catches (some cleanup) => by
      rw [Stmt.moved, partMoved, stmt, stmt, enter_moved, stmts_moved expected _ body, leave_moved,
        catches_moved expected _ catches, enter_moved, stmts_moved expected _ cleanup, leave_moved]
  | .print _ args _ => exprs_moved f inspection args
  | .returns value position => returned_moved f inspection expected position value
  | .breaks | .continues | .empty => rfl

theorem stmts_moved (expected : Option ValueType) (inspection : Inspection) : (list : List Stmt) →
    (inspection.moved f).stmts expected (allMoved f list) =
      (inspection.stmts expected list).moved f
  | [] => rfl
  | first :: rest => by
      rw [allMoved, stmts, stmts, stmt_moved expected _ first, stmts_moved expected _ rest]

theorem cases_moved (expected : Option ValueType) (inspection : Inspection) :
    (list : List (SwitchCase Stmt)) →
    (inspection.moved f).cases expected (casesMoved f list) =
      (inspection.cases expected list).moved f
  | [] => rfl
  | ⟨value, body⟩ :: rest => by
      rw [casesMoved, cases, cases, expr_moved, Checked.moved, stmts_moved expected _ body,
        cases_moved expected _ rest]

theorem catches_moved (expected : Option ValueType) (inspection : Inspection) :
    (list : List (CatchClause Stmt)) →
    (inspection.moved f).catches expected (catchesMoved f list) =
      (inspection.catches expected list).moved f
  | [] => rfl
  | ⟨exception, name, body, position⟩ :: rest => by
      rw [catchesMoved, catches, catches, enter_moved, bound_moved, stmts_moved expected _ body,
        leave_moved, catches_moved expected _ rest]

end

theorem params_moved (params : List Param) :
    (params.map (Param.moved f)).foldl
        (fun inspection param => inspection.bound param.type param.name param.position)
        (inspection.moved f) =
      (params.foldl (fun inspection param =>
        inspection.bound param.type param.name param.position) inspection).moved f := by
  induction params generalizing inspection with
  | nil => rfl
  | cons first rest ih =>
      have hfirst := bound_moved f inspection first.type first.name first.position
      rw [List.map_cons, List.foldl_cons, List.foldl_cons, ← ih, ← hfirst]
      rfl

theorem method_moved (decl : Method) :
    (inspection.moved f).method (decl.moved f) = (inspection.method decl).moved f := by
  rw [method, method]
  simp only [Method.moved, enter_moved, params_moved, stmts_moved, leave_moved, anyReturn_moved]
  exact reportIf_moved f _ _ decl.position (.missingReturn decl.name _)

theorem fields_moved (members : List Member) :
    (inspection.moved f).fields (membersMoved f members) =
      (inspection.fields members).moved f := by
  induction members generalizing inspection with
  | nil =>
      rw [membersMoved]
      rfl
  | cons first rest ih =>
      cases first with
      | field decl => rw [membersMoved, fields, fields, declaration_moved, ih]
      | method decl => rw [membersMoved, fields, fields, ih]
      | nested decl => rw [membersMoved, fields, fields, ih]

mutual

theorem classDecl_moved (inspection : Inspection) : (decl : ClassDecl) →
    (inspection.moved f).classDecl (ClassDecl.moved f decl) =
      (inspection.classDecl decl).moved f
  | ⟨_, _, list, _⟩ => by
      rw [ClassDecl.moved, classDecl, classDecl, enter_moved, fields_moved,
        members_moved _ list, leave_moved]

theorem members_moved (inspection : Inspection) : (list : List Member) →
    (inspection.moved f).members (membersMoved f list) = (inspection.members list).moved f
  | [] => by
      rw [membersMoved, members, members]
  | .field _ :: rest => by
      rw [membersMoved, members, members, members_moved _ rest]
  | .method decl :: rest => by
      rw [membersMoved, members, members, method_moved, members_moved _ rest]
  | .nested decl :: rest => by
      rw [membersMoved, members, members, classDecl_moved _ decl, members_moved _ rest]

end

theorem item_moved (first : Item) :
    (inspection.moved f).item (first.moved f) = (inspection.item first).moved f := by
  cases first with
  | declaration decl => exact classDecl_moved f inspection decl
  | statement s => exact stmt_moved f none inspection s

end Inspection

namespace Program

/-- A moved program has the problems of the program, in their order, at the moved positions. -/
theorem diagnostics_moved (program : Program) :
    (program.moved f).diagnostics = program.diagnostics.map (Diagnostic.moved f) := by
  have hitems : ∀ (list : List Item) (inspection : Inspection),
      (list.map (Item.moved f)).foldl Inspection.item (inspection.moved f) =
        (list.foldl Inspection.item inspection).moved f := by
    intro list
    induction list with
    | nil => exact fun _ => rfl
    | cons first rest ih =>
        intro inspection
        rw [List.map_cons, List.foldl_cons, List.foldl_cons, Inspection.item_moved, ih]
  exact congrArg Inspection.diagnostics (hitems program.items .start)

theorem diagnosticKinds_moved (program : Program) :
    (program.moved f).diagnostics.map Diagnostic.kind =
      program.diagnostics.map Diagnostic.kind := by
  rw [diagnostics_moved, List.map_map]
  exact List.map_congr_left fun diagnostic _ => Diagnostic.kind_moved f diagnostic

end Program

end MiniJava
