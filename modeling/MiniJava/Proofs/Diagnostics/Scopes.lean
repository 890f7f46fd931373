import MiniJava.Diagnostics.Program
import MiniJava.Proofs.Scope.Extends
import MiniJava.Proofs.Scope.Names

/-!
# Scopes of the checker

A diagnostic leaves the declarations in scope as they are, an expression only changes which of
them have been assigned, and a statement adds what it declares.
-/

namespace MiniJava.Inspection

open SymbolTable (Extends)

variable (inspection : Inspection)

@[simp] theorem symbols_reportIf (condition : Bool) (position : Position) (problem : Problem) :
    (inspection.reportIf condition position problem).symbols = inspection.symbols := by
  unfold reportIf
  split <;> rfl

@[simp] theorem symbols_read (name : String) (position : Position) :
    (inspection.read name position).after.symbols = inspection.symbols := by
  unfold read
  split
  · rfl
  · exact symbols_reportIf ..

@[simp] theorem symbols_write (name : String) (position : Position) :
    (inspection.write name position).symbols = inspection.symbols := by
  unfold write
  split
  · rfl
  · exact symbols_reportIf ..

@[simp] theorem symbols_assignable (target : ValueType) (source : Option ValueType) (value : Expr)
    (position : Position) :
    (inspection.assignable target source value position).symbols = inspection.symbols := by
  unfold assignable
  split
  · rfl
  · exact symbols_reportIf ..

@[simp] theorem symbols_store (symbol : Symbol) (op : Option BinaryOp) (source : Option ValueType)
    (value : Expr) (position : Position) :
    (inspection.store symbol op source value position).symbols = inspection.symbols := by
  unfold store
  split
  · exact symbols_assignable ..
  · exact symbols_reportIf ..

@[simp] theorem symbols_conclude (typing : Typing) (position : Position) (problem : Problem) :
    (inspection.conclude typing position problem).after.symbols = inspection.symbols :=
  symbols_reportIf ..

theorem symbols_declare (name : String) (symbol : Symbol) :
    (inspection.declare name symbol).symbols = inspection.symbols.bring name symbol := by
  unfold declare SymbolTable.declare SymbolTable.bring
  cases inspection.symbols.current.lookup name <;> rfl

theorem expr_bare (e : Expr) (inspection : Inspection) :
    (inspection.expr e).after.symbols.bare = inspection.symbols.bare := by
  induction e generalizing inspection with
  | literal value position => rfl
  | name word position => rw [expr, symbols_read]
  | binary op lhs rhs ihl ihr => rw [expr, symbols_conclude, ihr, ihl]
  | unary op operand ih => rw [expr, symbols_conclude, ih]
  | assign target op value position ih =>
      rw [expr]
      split
      · rw [ih, symbols_reportIf, symbols_write]
      · rw [markInitialized, SymbolTable.bare_markInitialized, symbols_store, ih,
          symbols_reportIf, symbols_write]
  | step target op form position =>
      rw [expr]
      split
      · rw [symbols_read]
      · rw [symbols_reportIf, symbols_write, symbols_read]

theorem exprs_bare (list : List Expr) (inspection : Inspection) :
    (inspection.exprs list).symbols.bare = inspection.symbols.bare := by
  induction list generalizing inspection with
  | nil => rfl
  | cons first rest ih => exact (ih _).trans (expr_bare first inspection)

theorem condition_bare (statement : Conditional) (e : Expr) :
    (inspection.condition statement e).symbols.bare = inspection.symbols.bare := by
  rw [condition]
  cases (inspection.expr e).type with
  | none => exact expr_bare e inspection
  | some type => rw [symbols_reportIf, expr_bare]

theorem forCondition_bare (e : Option Expr) :
    (inspection.forCondition e).symbols.bare = inspection.symbols.bare := by
  cases e with
  | none => rfl
  | some e => exact inspection.condition_bare .forLoop e

/-- The condition and the updates of a `for` loop are checked in front of its body. -/
theorem header_bare (e : Option Expr) (update : List Expr) :
    ((inspection.forCondition e).exprs update).symbols.bare = inspection.symbols.bare :=
  (exprs_bare update _).trans (inspection.forCondition_bare e)

theorem returned_bare (expected : Option ValueType) (position : Position) (value : Option Expr) :
    (inspection.returned expected position value).symbols.bare = inspection.symbols.bare := by
  cases value with
  | none =>
      cases expected with
      | none => rfl
      | some expected => rw [returned, symbols_reportIf]
  | some value =>
      have hvalue := expr_bare value inspection
      unfold returned
      dsimp only
      split
      · exact hvalue
      · exact hvalue
      · cases (inspection.expr value).type with
        | none => exact hvalue
        | some type => rw [symbols_reportIf, hvalue]

theorem declaration_bare (decl : VarDecl) (initialized constant : Bool) (assigned : Bool) :
    (inspection.declaration decl initialized).symbols.bare =
      (inspection.symbols.bring decl.name
        ⟨.ofTypeName decl.type, decl.position, assigned, constant⟩).bare := by
  unfold declaration
  rw [SymbolTable.bare_bring]
  split
  · rw [symbols_declare, SymbolTable.bare_bring]
    rfl
  · rw [symbols_declare, SymbolTable.bare_bring, symbols_assignable, expr_bare]
    rfl

mutual

theorem stmt_extends (expected : Option ValueType) : (s : Stmt) → ∀ inspection : Inspection,
    inspection.symbols.Extends s.declared (inspection.stmt expected s).symbols
  | .declare decl, inspection => by
      rw [stmt]
      have hbring := Extends.bring inspection.symbols decl.name
        ⟨.ofTypeName decl.type, decl.position, true, false⟩
      exact hbring.behind (inspection.declaration_bare decl false false true)
  | .expression e, inspection => by
      rw [stmt]
      exact .of_bare (expr_bare e inspection)
  | .block body, inspection => by
      rw [stmt]
      exact .of_bare (stmts_extends expected body inspection.enter).leave
  | .ifElse e thenBranch none, inspection => by
      rw [stmt]
      exact .before (inspection.condition_bare .ifElse e) (stmt_extends expected thenBranch _)
  | .ifElse e thenBranch (some elseBranch), inspection => by
      rw [stmt]
      exact .before (inspection.condition_bare .ifElse e)
        ((stmt_extends expected thenBranch _).trans (stmt_extends expected elseBranch _))
  | .whileLoop e body, inspection => by
      rw [stmt]
      exact .before (inspection.condition_bare .whileLoop e) (stmt_extends expected body _)
  | .doWhile body e, inspection => by
      rw [stmt]
      exact (stmt_extends expected body inspection).behind (condition_bare _ .doWhile e)
  | .forLoop none e update body, inspection => by
      rw [stmt]
      have hbody := (stmt_extends expected body _).before (inspection.enter.header_bare e update)
      exact .of_bare hbody.leave
  | .forLoop (some init) e update body, inspection => by
      rw [stmt]
      have hinit := stmt_extends expected init inspection.enter
      have hbody := (stmt_extends expected body _).before
        ((inspection.enter.stmt expected init).header_bare e update)
      exact .of_bare (hinit.trans hbody).leave
  | .switch scrutinee cases none, inspection => by
      rw [stmt]
      have hcases := cases_extends expected cases (inspection.expr scrutinee).after.enter
      exact .of_bare (hcases.leave.trans (expr_bare scrutinee inspection))
  | .switch scrutinee cases (some default), inspection => by
      rw [stmt]
      have hcases := (cases_extends expected cases (inspection.expr scrutinee).after.enter).trans
        (stmts_extends expected default _)
      exact .of_bare (hcases.leave.trans (expr_bare scrutinee inspection))
  | .tryCatch body catches none, inspection => by
      rw [stmt]
      have hbody := (stmts_extends expected body inspection.enter).leave
      exact .of_bare ((catches_bare expected catches (leave _)).trans hbody)
  | .tryCatch body catches (some cleanup), inspection => by
      rw [stmt]
      have hbody := (stmts_extends expected body inspection.enter).leave
      have hcatches := (catches_bare expected catches (leave _)).trans hbody
      exact .of_bare ((stmts_extends expected cleanup (enter _)).leave.trans hcatches)
  | .print kind args position, inspection => by
      rw [stmt]
      exact .of_bare (exprs_bare args inspection)
  | .returns value position, inspection => by
      rw [stmt]
      exact .of_bare (inspection.returned_bare expected position value)
  | .breaks, inspection | .continues, inspection | .empty, inspection => by
      rw [stmt]
      exact .refl _

theorem stmts_extends (expected : Option ValueType) : (body : List Stmt) →
    ∀ inspection : Inspection,
      inspection.symbols.Extends (body.flatMap Stmt.declared)
        (inspection.stmts expected body).symbols
  | [], inspection => by
      rw [stmts]
      exact .refl _
  | first :: rest, inspection => by
      rw [stmts]
      exact (stmt_extends expected first inspection).trans (stmts_extends expected rest _)

theorem cases_extends (expected : Option ValueType) : (list : List (SwitchCase Stmt)) →
    ∀ inspection : Inspection,
      inspection.symbols.Extends (list.flatMap fun label => label.body.flatMap Stmt.declared)
        (inspection.cases expected list).symbols
  | [], inspection => by
      rw [cases]
      exact .refl _
  | ⟨label, body⟩ :: rest, inspection => by
      rw [cases]
      exact .before (expr_bare label inspection)
        ((stmts_extends expected body _).trans (cases_extends expected rest _))

theorem catches_bare (expected : Option ValueType) : (list : List (CatchClause Stmt)) →
    ∀ inspection : Inspection,
      (inspection.catches expected list).symbols.bare = inspection.symbols.bare
  | [], inspection => by rw [catches]
  | ⟨exception, name, body, position⟩ :: rest, inspection => by
      rw [catches]
      have hbound : inspection.symbols.enter.Extends [name]
          (inspection.enter.bound exception name position).symbols := by
        rw [bound, symbols_declare]
        exact .bring ..
      have hbody := (hbound.trans (stmts_extends expected body _)).leave
      exact (catches_bare expected rest _).trans hbody

end

theorem symbols_params (params : List Param) (inspection : Inspection) :
    (params.foldl (fun inspection param => inspection.bound param.type param.name param.position)
      inspection).symbols = inspection.symbols.bringParams params := by
  induction params generalizing inspection with
  | nil => rfl
  | cons param rest ih =>
      rw [List.foldl_cons, ih, bound, symbols_declare]
      rfl

theorem method_bare (decl : Method) :
    (inspection.method decl).symbols.bare = inspection.symbols.bare := by
  have hparams := (Extends.bringParams inspection.symbols.enter decl.params).behind
    (congrArg SymbolTable.bare (symbols_params decl.params inspection.enter))
  rw [method, symbols_reportIf]
  exact (hparams.trans (stmts_extends _ decl.body _)).leave

theorem fields_extends (members : List Member) (inspection : Inspection) :
    ∃ names, inspection.symbols.Extends names (inspection.fields members).symbols := by
  induction members generalizing inspection with
  | nil => exact ⟨[], .refl _⟩
  | cons member rest ih =>
      cases member with
      | field decl =>
          obtain ⟨names, hrest⟩ := ih (inspection.declaration decl true)
          have hfield := (Extends.bring inspection.symbols decl.name _).behind
            (inspection.declaration_bare decl true false true)
          exact ⟨_, hfield.trans hrest⟩
      | method decl => exact ih inspection
      | nested decl => exact ih inspection

mutual

theorem classDecl_bare : (decl : ClassDecl) → ∀ inspection : Inspection,
    (inspection.classDecl decl).symbols.bare = inspection.symbols.bare
  | ⟨_, _, members, _⟩, inspection => by
      obtain ⟨names, hfields⟩ := fields_extends members inspection.enter
      rw [classDecl]
      exact (hfields.behind (members_bare members _)).leave

theorem members_bare : (members : List Member) → ∀ inspection : Inspection,
    (inspection.members members).symbols.bare = inspection.symbols.bare
  | [], inspection => by rw [members]
  | .field decl :: rest, inspection => by
      rw [members]
      exact members_bare rest inspection
  | .method decl :: rest, inspection => by
      rw [members]
      exact (members_bare rest _).trans (inspection.method_bare decl)
  | .nested decl :: rest, inspection => by
      rw [members]
      exact (members_bare rest _).trans (classDecl_bare decl inspection)

end

end MiniJava.Inspection
