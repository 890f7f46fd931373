import MiniJava.Proofs.Diagnostics.Scopes
import MiniJava.Scope.SymbolTable

/-!
# The checker as a sequence of checks

Which checks the checker makes, and in which order, can be read off the syntax; only what a check
finds depends on the table it is made with. The checker's walk over a program is the sequence of its
checks, so a program is clean if and only if every one of them passes with the table that the
earlier ones leave.
-/

namespace MiniJava

/-- One action of the checker. An assignment is begun in front of its value and stored behind it. -/
inductive Check where
  | enter
  | leave
  | declares (type : TypeName) (name : String) (position : Position) (initialized constant : Bool)
  | reads (name : String) (position : Position)
  | applies (op : BinaryOp) (lhs rhs : Expr)
  | signs (op : UnaryOp) (operand : Expr)
  | begins (target : String) (op : Option BinaryOp) (value : Expr) (position : Position)
  | stores (target : String) (op : Option BinaryOp) (value : Expr) (position : Position)
  | steps (target : String) (op : StepOp) (position : Position)
  | initializes (type : TypeName) (value : Expr) (position : Position)
  | tests (statement : Conditional) (condition : Expr)
  | gives (expected : Option ValueType) (value : Option Expr) (position : Position)
  | ends (method : String) (expected : ValueType) (returns : Bool) (position : Position)
deriving DecidableEq

def Expr.checks : Expr → List Check
  | .literal _ _ => []
  | .name word position => [.reads word position]
  | .binary op lhs rhs => lhs.checks ++ rhs.checks ++ [.applies op lhs rhs]
  | .unary op operand => operand.checks ++ [.signs op operand]
  | .assign target op value position =>
    .begins target op value position :: value.checks ++ [.stores target op value position]
  | .step target op _ position => [.steps target op position]

def VarDecl.checks (decl : VarDecl) (initialized : Bool) : List Check :=
  (match decl.init with
    | none => []
    | some value => value.checks ++ [.initializes decl.type value decl.position]) ++
  [.declares decl.type decl.name decl.position (initialized || decl.init.isSome) decl.isFinal]

def Conditional.checks (statement : Conditional) (condition : Expr) : List Check :=
  condition.checks ++ [.tests statement condition]

def returnChecks (expected : Option ValueType) (position : Position) : Option Expr → List Check
  | none => [.gives expected none position]
  | some value => value.checks ++ [.gives expected (some value) position]

def headerChecks (condition : Option Expr) (update : List Expr) : List Check :=
  condition.toList.flatMap Conditional.forLoop.checks ++ update.flatMap Expr.checks

mutual

/-- The checks of a statement of a method with the return type `expected`. -/
def Stmt.checks (expected : Option ValueType) : Stmt → List Check
  | .declare decl => decl.checks false
  | .expression e => e.checks
  | .block body => .enter :: bodyChecks expected body ++ [.leave]
  | .ifElse e thenBranch none => Conditional.ifElse.checks e ++ thenBranch.checks expected
  | .ifElse e thenBranch (some elseBranch) =>
    Conditional.ifElse.checks e ++ thenBranch.checks expected ++ elseBranch.checks expected
  | .whileLoop e body => Conditional.whileLoop.checks e ++ body.checks expected
  | .doWhile body e => body.checks expected ++ Conditional.doWhile.checks e
  | .forLoop none e update body =>
    .enter :: (headerChecks e update ++ body.checks expected) ++ [.leave]
  | .forLoop (some init) e update body =>
    .enter :: (init.checks expected ++ headerChecks e update ++ body.checks expected) ++ [.leave]
  | .switch scrutinee cases none =>
    scrutinee.checks ++ (.enter :: caseChecks expected cases ++ [.leave])
  | .switch scrutinee cases (some default) =>
    scrutinee.checks ++
      (.enter :: (caseChecks expected cases ++ bodyChecks expected default) ++ [.leave])
  | .tryCatch body catches none =>
    .enter :: bodyChecks expected body ++ [.leave] ++ catchChecks expected catches
  | .tryCatch body catches (some cleanup) =>
    .enter :: bodyChecks expected body ++ [.leave] ++ catchChecks expected catches ++
      (.enter :: bodyChecks expected cleanup ++ [.leave])
  | .print _ args _ => args.flatMap Expr.checks
  | .returns value position => returnChecks expected position value
  | .breaks | .continues | .empty => []

def bodyChecks (expected : Option ValueType) : List Stmt → List Check
  | [] => []
  | first :: rest => first.checks expected ++ bodyChecks expected rest

def caseChecks (expected : Option ValueType) : List (SwitchCase Stmt) → List Check
  | [] => []
  | ⟨value, body⟩ :: rest => value.checks ++ bodyChecks expected body ++ caseChecks expected rest

def catchChecks (expected : Option ValueType) : List (CatchClause Stmt) → List Check
  | [] => []
  | ⟨exception, name, body, position⟩ :: rest =>
    .enter :: (.declares exception name position true false :: bodyChecks expected body) ++
      [.leave] ++ catchChecks expected rest

end

/-- The type that the `return`s of a method have to give. -/
def Method.expected (decl : Method) : ValueType :=
  (decl.returnType.map ValueType.ofTypeName).getD .void

def Param.check (param : Param) : Check := .declares param.type param.name param.position true false

def Method.checks (decl : Method) : List Check :=
  .enter :: (decl.params.map Param.check ++ bodyChecks (some decl.expected) decl.body) ++ [.leave] ++
    [.ends decl.name decl.expected (anyReturn decl.body) decl.position]

def fieldChecks : List Member → List Check
  | [] => []
  | .field decl :: rest => decl.checks true ++ fieldChecks rest
  | .method _ :: rest => fieldChecks rest
  | .nested _ :: rest => fieldChecks rest

mutual

def classChecks : ClassDecl → List Check
  | ⟨_, _, members, _⟩ => .enter :: (fieldChecks members ++ memberChecks members) ++ [.leave]

def memberChecks : List Member → List Check
  | [] => []
  | .field _ :: rest => memberChecks rest
  | .method decl :: rest => decl.checks ++ memberChecks rest
  | .nested decl :: rest => classChecks decl ++ memberChecks rest

end

def Item.checks : Item → List Check
  | .declaration decl => classChecks decl
  | .statement s => s.checks none

def Program.checks (program : Program) : List Check := program.items.flatMap Item.checks

namespace Inspection

/-- Makes one check; the types of operands are those that the table gives them. -/
def check (inspection : Inspection) : Check → Inspection
  | .enter => inspection.enter
  | .leave => inspection.leave
  | .declares type name position initialized constant =>
    inspection.declare name ⟨.ofTypeName type, position, initialized, constant⟩
  | .reads name position => (inspection.read name position).after
  | .applies op lhs rhs =>
    let left := inspection.symbols.typeOf lhs
    let right := inspection.symbols.typeOf rhs
    (inspection.conclude (op.typing left right) lhs.position
      (.operands op (left.getD .void) (right.getD .void))).after
  | .signs op operand =>
    let inner := inspection.symbols.typeOf operand
    (inspection.conclude (op.typing inner) operand.position (.operand op (inner.getD .void))).after
  | .begins target op _ position =>
    let unread := op.isSome &&
      (inspection.symbols.lookup? target).any fun symbol => !symbol.initialized
    (inspection.write target position).reportIf unread position (.uninitialized target)
  | .stores target op value position =>
    match inspection.symbols.lookup? target with
    | none => inspection
    | some symbol =>
      (inspection.store symbol op (inspection.symbols.typeOf value) value position).markInitialized
        target
  | .steps target op position => (inspection.expr (.step target op .before position)).after
  | .initializes type value position =>
    inspection.assignable (.ofTypeName type) (inspection.symbols.typeOf value) value position
  | .tests statement condition =>
    match inspection.symbols.typeOf condition with
    | none => inspection
    | some type =>
      inspection.reportIf (type ≠ .boolean) condition.position (.nonBooleanCondition statement type)
  | .gives none _ _ => inspection
  | .gives (some expected) none position =>
    inspection.reportIf (expected ≠ .void) position (.missingValue expected)
  | .gives (some .void) (some _) position => inspection.report position .valueFromVoid
  | .gives (some expected) (some value) position =>
    match inspection.symbols.typeOf value with
    | none => inspection
    | some type =>
      inspection.reportIf (!expected.accepts type) position (.returnMismatch type expected)
  | .ends method expected returns position =>
    inspection.reportIf (expected ≠ .void && !returns) position (.missingReturn method expected)

def run (inspection : Inspection) (checks : List Check) : Inspection :=
  checks.foldl check inspection

@[simp] theorem run_nil (inspection : Inspection) : inspection.run [] = inspection := rfl

@[simp] theorem run_cons (inspection : Inspection) (first : Check) (rest : List Check) :
    inspection.run (first :: rest) = (inspection.check first).run rest := rfl

@[simp] theorem run_append (inspection : Inspection) (checks more : List Check) :
    inspection.run (checks ++ more) = (inspection.run checks).run more := List.foldl_append

end Inspection

namespace SymbolTable

theorem lookup?_bare (table : SymbolTable) (name : String) :
    table.bare.lookup? name = (table.lookup? name).map Symbol.bare := by
  rw [lookup?, lookup?, resolve?_bare, Option.map_map, Option.map_map]
  rfl

/-- The type that a name is declared with. -/
def declaredType? (table : SymbolTable) (name : String) : Option ValueType :=
  (table.lookup? name).map Symbol.type

/-- The type of an expression is made from the types that its names are declared with. -/
theorem typeOf_congr {table other : SymbolTable} {e : Expr}
    (h : ∀ name ∈ e.names, table.declaredType? name = other.declaredType? name) :
    table.typeOf e = other.typeOf e := by
  induction e with
  | literal value position => rfl
  | name word position => exact h word List.mem_cons_self
  | binary op lhs rhs ihl ihr =>
      rw [typeOf, typeOf, ihl fun name hname => h name (List.mem_append_left _ hname),
        ihr fun name hname => h name (List.mem_append_right _ hname)]
  | unary op operand ih => rw [typeOf, typeOf, ih h]
  | assign target op value position ih => exact h target List.mem_cons_self
  | step target op form position => exact h target List.mem_cons_self

/-- Which type a name is declared with does not depend on what has been assigned. -/
theorem declaredType?_bare (table : SymbolTable) (name : String) :
    table.bare.declaredType? name = table.declaredType? name := by
  rw [declaredType?, declaredType?, lookup?_bare, Option.map_map]
  rfl

theorem declaredType?_of_bare {table other : SymbolTable} (h : other.bare = table.bare)
    (name : String) : other.declaredType? name = table.declaredType? name := by
  rw [← declaredType?_bare, h, declaredType?_bare]

theorem typeOf_of_bare {table other : SymbolTable} (h : other.bare = table.bare) (e : Expr) :
    other.typeOf e = table.typeOf e := typeOf_congr fun name _ => declaredType?_of_bare h name

/-- A literal that narrows is an `int`. -/
theorem typeOf_of_narrows {table : SymbolTable} {target : ValueType} {value : Expr}
    (h : Inspection.narrows target value = true) : table.typeOf value = some .int := by
  cases value with
  | literal value position =>
      have hintegral : value.isIntegral = true := (Bool.and_eq_true_iff.mp h).1
      cases value with
      | number text => simp [typeOf, ValueType.ofLiteral, hintegral]
      | _ => cases hintegral
  | _ => cases h

end SymbolTable

namespace Inspection

theorem read_type (inspection : Inspection) (name : String) (position : Position) :
    (inspection.read name position).type =
      (inspection.symbols.lookup? name).map Symbol.type := by
  unfold read
  cases inspection.symbols.lookup? name <;> rfl

/-- The checker gives an expression its static type. -/
theorem expr_type (e : Expr) (inspection : Inspection) :
    (inspection.expr e).type = inspection.symbols.typeOf e := by
  induction e generalizing inspection with
  | literal value position => rfl
  | name word position => exact inspection.read_type word position
  | binary op lhs rhs ihl ihr =>
      rw [expr, SymbolTable.typeOf]
      simp only [conclude, ihl, ihr, SymbolTable.typeOf_of_bare (expr_bare lhs inspection)]
  | unary op operand ih =>
      rw [expr, SymbolTable.typeOf]
      simp only [conclude, ih]
  | assign target op value position ih =>
      rw [expr, SymbolTable.typeOf]
      cases inspection.symbols.lookup? target <;> rfl
  | step target op form position =>
      rw [expr, SymbolTable.typeOf, ← inspection.read_type target position]
      cases h : (inspection.read target position).type <;> simp [h]

/-- Behind an expression every expression still has the type that it had in front of it. -/
theorem typeOf_behind (e value : Expr) (inspection : Inspection) :
    (inspection.expr e).after.symbols.typeOf value = inspection.symbols.typeOf value :=
  SymbolTable.typeOf_of_bare (expr_bare e inspection) value

theorem store_congr (inspection : Inspection) {symbol other : Symbol}
    (h : symbol.type = other.type) (op : Option BinaryOp) (source : Option ValueType)
    (value : Expr) (position : Position) :
    inspection.store symbol op source value position =
      inspection.store other op source value position := by
  unfold store
  rw [h]

theorem check_begins (inspection : Inspection) (target : String) (op : Option BinaryOp)
    (value : Expr) (position : Position) :
    (inspection.check (.begins target op value position)).symbols = inspection.symbols := by
  rw [check, symbols_reportIf, symbols_write]

theorem run_assign (inspection : Inspection) (target : String) (op : Option BinaryOp) (value : Expr)
    (position : Position) :
    (inspection.expr (.assign target op value position)).after =
      ((inspection.check (.begins target op value position)).expr value).after.check
        (.stores target op value position) := by
  have hbegun := inspection.check_begins target op value position
  have hbare := expr_bare value (inspection.check (.begins target op value position))
  rw [hbegun] at hbare
  have hlookup := SymbolTable.lookup?_bare inspection.symbols target
  rw [← hbare, SymbolTable.lookup?_bare] at hlookup
  have htype := expr_type value (inspection.check (.begins target op value position))
  rw [← typeOf_behind value] at htype
  rw [expr]
  simp only [check] at hlookup htype ⊢
  cases hbefore : inspection.symbols.lookup? target with
  | none =>
      rw [hbefore] at hlookup htype
      rw [Option.map_none, Option.map_eq_none_iff] at hlookup
      simp only [hlookup]
  | some symbol =>
      rw [hbefore] at hlookup htype
      obtain ⟨behind, hbehind, hsame⟩ := Option.map_eq_some_iff.mp hlookup
      simp only [hbehind, ← htype]
      exact congrArg (fun inspection => inspection.markInitialized target)
        (store_congr _ (congrArg Symbol.type hsame).symm op _ value position)

theorem run_expr (e : Expr) (inspection : Inspection) :
    (inspection.expr e).after = inspection.run e.checks := by
  induction e generalizing inspection with
  | literal value position => rfl
  | name word position => rfl
  | binary op lhs rhs ihl ihr =>
      rw [expr, Expr.checks, run_append, run_append, ← ihl, ← ihr, run_cons, run_nil, check]
      simp only [expr_type, typeOf_behind]
  | unary op operand ih =>
      rw [expr, Expr.checks, run_append, ← ih, run_cons, run_nil, check]
      simp only [expr_type, typeOf_behind]
  | assign target op value position ih =>
      rw [run_assign, Expr.checks, List.cons_append, run_cons, run_append, ← ih, run_cons, run_nil]
  | step target op form position => rfl

theorem run_exprs (list : List Expr) (inspection : Inspection) :
    inspection.exprs list = inspection.run (list.flatMap Expr.checks) := by
  induction list generalizing inspection with
  | nil => rfl
  | cons first rest ih =>
      rw [List.flatMap_cons, run_append, ← run_expr]
      exact ih _

theorem run_condition (inspection : Inspection) (statement : Conditional) (e : Expr) :
    inspection.condition statement e = inspection.run (statement.checks e) := by
  rw [condition, Conditional.checks, run_append, ← run_expr, run_cons, run_nil, check]
  cases h : inspection.symbols.typeOf e <;> simp only [expr_type, typeOf_behind, h]

theorem run_header (inspection : Inspection) (e : Option Expr) (update : List Expr) :
    (inspection.forCondition e).exprs update = inspection.run (headerChecks e update) := by
  rw [headerChecks, run_append, run_exprs]
  cases e with
  | none => rfl
  | some e => simp [forCondition, run_condition]

theorem run_declaration (inspection : Inspection) (decl : VarDecl) (initialized : Bool) :
    inspection.declaration decl initialized = inspection.run (decl.checks initialized) := by
  rw [declaration, VarDecl.checks]
  cases decl.init with
  | none => rfl
  | some value =>
      simp only [run_append, ← run_expr, run_cons, run_nil, check, expr_type, typeOf_behind]

theorem run_returned (inspection : Inspection) (expected : Option ValueType) (position : Position)
    (value : Option Expr) :
    inspection.returned expected position value =
      inspection.run (returnChecks expected position value) := by
  cases value with
  | none => cases expected <;> rfl
  | some value =>
      rw [returnChecks, run_append, ← run_expr, run_cons, run_nil]
      cases expected with
      | none => rfl
      | some expected =>
          cases h : inspection.symbols.typeOf value <;> cases expected <;>
            simp only [returned, check, expr_type, typeOf_behind, h]

mutual

theorem run_stmt (expected : Option ValueType) : (s : Stmt) → ∀ inspection : Inspection,
    inspection.stmt expected s = inspection.run (s.checks expected)
  | .declare decl, inspection => inspection.run_declaration decl false
  | .expression e, inspection => run_expr e inspection
  | .block body, inspection => by
      simp only [stmt, Stmt.checks, run_append, run_cons, run_nil, check, run_stmts expected body]
  | .ifElse e thenBranch none, inspection => by
      simp only [stmt, Stmt.checks, run_append, run_condition, run_stmt expected thenBranch]
  | .ifElse e thenBranch (some elseBranch), inspection => by
      simp only [stmt, Stmt.checks, run_append, run_condition, run_stmt expected thenBranch,
        run_stmt expected elseBranch]
  | .whileLoop e body, inspection => by
      simp only [stmt, Stmt.checks, run_append, run_condition, run_stmt expected body]
  | .doWhile body e, inspection => by
      simp only [stmt, Stmt.checks, run_append, run_condition, run_stmt expected body]
  | .forLoop none e update body, inspection => by
      simp only [stmt, Stmt.checks, run_append, run_cons, run_nil, check, run_header,
        run_stmt expected body]
  | .forLoop (some init) e update body, inspection => by
      simp only [stmt, Stmt.checks, run_append, run_cons, run_nil, check, run_header,
        run_stmt expected init, run_stmt expected body]
  | .switch scrutinee cases none, inspection => by
      simp only [stmt, Stmt.checks, run_append, run_cons, run_nil, check, run_expr,
        run_cases expected cases]
  | .switch scrutinee cases (some default), inspection => by
      simp only [stmt, Stmt.checks, run_append, run_cons, run_nil, check, run_expr,
        run_cases expected cases, run_stmts expected default]
  | .tryCatch body catches none, inspection => by
      simp only [stmt, Stmt.checks, run_append, run_cons, run_nil, check,
        run_stmts expected body, run_catches expected catches]
  | .tryCatch body catches (some cleanup), inspection => by
      simp only [stmt, Stmt.checks, run_append, run_cons, run_nil, check,
        run_stmts expected body, run_catches expected catches, run_stmts expected cleanup]
  | .print kind args position, inspection => by
      rw [stmt, Stmt.checks, run_exprs]
  | .returns value position, inspection => by
      rw [stmt, Stmt.checks, run_returned]
  | .breaks, inspection | .continues, inspection | .empty, inspection => rfl

theorem run_stmts (expected : Option ValueType) : (body : List Stmt) → ∀ inspection : Inspection,
    inspection.stmts expected body = inspection.run (bodyChecks expected body)
  | [], inspection => rfl
  | first :: rest, inspection => by
      rw [stmts, bodyChecks, run_append, run_stmt expected first, run_stmts expected rest]

theorem run_cases (expected : Option ValueType) : (list : List (SwitchCase Stmt)) →
    ∀ inspection : Inspection,
      inspection.cases expected list = inspection.run (caseChecks expected list)
  | [], inspection => rfl
  | ⟨value, body⟩ :: rest, inspection => by
      simp only [cases, caseChecks, run_append, run_expr, run_stmts expected body,
        run_cases expected rest]

theorem run_catches (expected : Option ValueType) : (list : List (CatchClause Stmt)) →
    ∀ inspection : Inspection,
      inspection.catches expected list = inspection.run (catchChecks expected list)
  | [], inspection => rfl
  | ⟨exception, name, body, position⟩ :: rest, inspection => by
      simp only [catches, catchChecks, run_append, run_cons, run_nil, check, bound,
        run_stmts expected body, run_catches expected rest]

end

theorem run_params (params : List Param) (inspection : Inspection) :
    params.foldl (fun inspection param => inspection.bound param.type param.name param.position)
      inspection = inspection.run (params.map Param.check) := by
  rw [run, List.foldl_map]
  rfl

theorem run_method (decl : Method) (inspection : Inspection) :
    inspection.method decl = inspection.run decl.checks := by
  simp only [method, Method.checks, Method.expected, run_append, run_cons, run_nil, check,
    run_params, run_stmts]

theorem run_fields (members : List Member) (inspection : Inspection) :
    inspection.fields members = inspection.run (fieldChecks members) := by
  induction members generalizing inspection with
  | nil => rfl
  | cons member rest ih =>
      cases member with
      | field decl => rw [fields, fieldChecks, run_append, ih, run_declaration]
      | method decl => exact ih inspection
      | nested decl => exact ih inspection

mutual

theorem run_classDecl : (decl : ClassDecl) → ∀ inspection : Inspection,
    inspection.classDecl decl = inspection.run (classChecks decl)
  | ⟨_, _, members, _⟩, inspection => by
      simp only [classDecl, classChecks, run_append, run_cons, run_nil, check, run_fields,
        run_members members]

theorem run_members : (members : List Member) → ∀ inspection : Inspection,
    inspection.members members = inspection.run (memberChecks members)
  | [], inspection => by rw [members, memberChecks, run_nil]
  | .field _ :: rest, inspection => by rw [members, memberChecks, run_members rest]
  | .method decl :: rest, inspection => by
      rw [members, memberChecks, run_append, run_method, run_members rest]
  | .nested decl :: rest, inspection => by
      rw [members, memberChecks, run_append, run_classDecl decl, run_members rest]

end

theorem run_item (item : Item) (inspection : Inspection) :
    inspection.item item = inspection.run item.checks := by
  cases item with
  | declaration decl => exact run_classDecl decl inspection
  | statement s => exact run_stmt none s inspection

end Inspection

theorem Program.diagnostics_eq_run (program : Program) :
    program.diagnostics = (Inspection.start.run program.checks).diagnostics := by
  have hitems (items : List Item) (inspection : Inspection) :
      items.foldl Inspection.item inspection = inspection.run (items.flatMap Item.checks) := by
    induction items generalizing inspection with
    | nil => rfl
    | cons first rest ih =>
        rw [List.foldl_cons, ih, Inspection.run_item, List.flatMap_cons, Inspection.run_append]
  exact congrArg Inspection.diagnostics (hitems program.items .start)

namespace Check

def operands : Check → List Expr
  | .applies _ lhs rhs => [lhs, rhs]
  | .signs _ operand => [operand]
  | .stores target _ value position => [.name target position, value]
  | .initializes _ value _ => [value]
  | .tests _ condition => [condition]
  | .gives _ value _ => value.toList
  | _ => []

def isAssignment : Check → Bool
  | .begins .. | .stores .. => true
  | _ => false

end Check

/-- What holds of the checks of expressions, of single checks and of what is put together from such
parts holds of all the sequences of checks that the checker makes. -/
structure Composed (P : List Check → Prop) : Prop where
  nil : P []
  append {checks more : List Check} (h : P checks) (hmore : P more) : P (checks ++ more)
  scope {checks : List Check} (h : P checks) : P (.enter :: checks ++ [.leave])
  expr (e : Expr) : P e.checks
  behind (e : Expr) {c : Check} (hoperands : c.operands = [e]) (hplain : c.isAssignment = false) :
    P (e.checks ++ [c])
  alone {c : Check} (hoperands : c.operands = []) (hplain : c.isAssignment = false)
    (henter : c ≠ .enter) (hleave : c ≠ .leave) : P [c]

namespace Composed

variable {P : List Check → Prop} (h : Composed P)
include h

theorem flatMap {α : Type} {list : List α} {f : α → List Check} (hf : ∀ a ∈ list, P (f a)) :
    P (list.flatMap f) := by
  induction list with
  | nil => exact h.nil
  | cons first rest ih =>
      exact h.append (hf first List.mem_cons_self)
        (ih fun a ha => hf a (List.mem_cons_of_mem _ ha))

theorem bound (type : TypeName) (name : String) (position : Position) {checks : List Check}
    (hmore : P checks) : P (.declares type name position true false :: checks) := by
  have hbound : P [.declares type name position true false] := h.alone rfl rfl nofun nofun
  exact h.append hbound hmore

theorem exprs (list : List Expr) : P (list.flatMap Expr.checks) := h.flatMap fun e _ => h.expr e

theorem condition (statement : Conditional) (e : Expr) : P (statement.checks e) :=
  h.behind e rfl rfl

theorem header (e : Option Expr) (update : List Expr) : P (headerChecks e update) :=
  h.append (h.flatMap fun e _ => h.condition .forLoop e) (h.exprs update)

theorem declaration (decl : VarDecl) (initialized : Bool) : P (decl.checks initialized) := by
  unfold VarDecl.checks
  cases decl.init with
  | none => exact h.alone rfl rfl nofun nofun
  | some value => exact h.append (h.behind value rfl rfl) (h.alone rfl rfl nofun nofun)

theorem returned (expected : Option ValueType) (position : Position) (value : Option Expr) :
    P (returnChecks expected position value) := by
  cases value with
  | none => exact h.alone rfl rfl nofun nofun
  | some value => exact h.behind value rfl rfl

mutual

theorem stmt (expected : Option ValueType) : (s : Stmt) → P (s.checks expected)
  | .declare decl => h.declaration decl false
  | .expression e => h.expr e
  | .block list => h.scope (body expected list)
  | .ifElse e thenBranch none => h.append (h.condition .ifElse e) (stmt expected thenBranch)
  | .ifElse e thenBranch (some elseBranch) =>
    h.append (h.append (h.condition .ifElse e) (stmt expected thenBranch))
      (stmt expected elseBranch)
  | .whileLoop e body => h.append (h.condition .whileLoop e) (stmt expected body)
  | .doWhile body e => h.append (stmt expected body) (h.condition .doWhile e)
  | .forLoop none e update body => h.scope (h.append (h.header e update) (stmt expected body))
  | .forLoop (some init) e update body =>
    h.scope (h.append (h.append (stmt expected init) (h.header e update)) (stmt expected body))
  | .switch scrutinee list none => h.append (h.expr scrutinee) (h.scope (cases expected list))
  | .switch scrutinee list (some default) =>
    h.append (h.expr scrutinee) (h.scope (h.append (cases expected list) (body expected default)))
  | .tryCatch tried list none => h.append (h.scope (body expected tried)) (catches expected list)
  | .tryCatch tried list (some cleanup) =>
    h.append (h.append (h.scope (body expected tried)) (catches expected list))
      (h.scope (body expected cleanup))
  | .print _ args _ => h.exprs args
  | .returns value position => h.returned expected position value
  | .breaks | .continues | .empty => h.nil

theorem body (expected : Option ValueType) : (list : List Stmt) → P (bodyChecks expected list)
  | [] => h.nil
  | first :: rest => h.append (stmt expected first) (body expected rest)

theorem cases (expected : Option ValueType) :
    (list : List (SwitchCase Stmt)) → P (caseChecks expected list)
  | [] => h.nil
  | ⟨value, statements⟩ :: rest =>
    h.append (h.append (h.expr value) (body expected statements)) (cases expected rest)

theorem catches (expected : Option ValueType) :
    (list : List (CatchClause Stmt)) → P (catchChecks expected list)
  | [] => h.nil
  | ⟨_, _, statements, _⟩ :: rest =>
    h.append (h.scope (h.bound _ _ _ (body expected statements))) (catches expected rest)

end

theorem method (decl : Method) : P decl.checks := by
  have hparams (params : List Param) : P (params.map Param.check) := by
    induction params with
    | nil => exact h.nil
    | cons param rest ih => exact h.bound _ _ _ ih
  exact h.append (h.scope (h.append (hparams decl.params) (h.body _ decl.body)))
    (h.alone rfl rfl nofun nofun)

theorem fields (list : List Member) : P (fieldChecks list) := by
  induction list with
  | nil => exact h.nil
  | cons member rest ih =>
      cases member with
      | field decl => exact h.append (h.declaration decl true) ih
      | method decl => exact ih
      | nested decl => exact ih

mutual

theorem classDecl : (decl : ClassDecl) → P (classChecks decl)
  | ⟨_, _, list, _⟩ => by
      rw [classChecks]
      exact h.scope (h.append (h.fields list) (members list))

theorem members : (list : List Member) → P (memberChecks list)
  | [] => by
      rw [memberChecks]
      exact h.nil
  | .field _ :: rest => by
      rw [memberChecks]
      exact members rest
  | .method decl :: rest => by
      rw [memberChecks]
      exact h.append (h.method decl) (members rest)
  | .nested decl :: rest => by
      rw [memberChecks]
      exact h.append (classDecl decl) (members rest)

end

theorem program (program : Program) : P program.checks :=
  h.flatMap fun item _ => by
    cases item with
    | declaration decl => exact h.classDecl decl
    | statement s => exact h.stmt none s

end Composed

/-- The checks of an operand stand in front of the check that compares its type, and those of an
assigned value between the two checks of the assignment. -/
inductive Arranged : List Check → Prop
  | nil : Arranged []
  | append {checks more : List Check} (h : Arranged checks) (hmore : Arranged more) :
      Arranged (checks ++ more)
  | alone {c : Check} (hoperands : c.operands = []) (hplain : c.isAssignment = false) : Arranged [c]
  | behind {e : Expr} {c : Check} (h : Arranged e.checks) (hoperands : c.operands = [e])
      (hplain : c.isAssignment = false) : Arranged (e.checks ++ [c])
  | applies {lhs rhs : Expr} (op : BinaryOp) (hl : Arranged lhs.checks)
      (hr : Arranged rhs.checks) : Arranged (lhs.checks ++ rhs.checks ++ [.applies op lhs rhs])
  | assigns {value : Expr} (target : String) (op : Option BinaryOp) (position : Position)
      (h : Arranged value.checks) :
      Arranged (.begins target op value position ::
        value.checks ++ [.stores target op value position])

namespace Arranged

theorem expr (e : Expr) : Arranged e.checks := by
  induction e with
  | literal value position => exact nil
  | name word position => exact alone rfl rfl
  | binary op lhs rhs ihl ihr => exact applies op ihl ihr
  | unary op operand ih => exact behind ih rfl rfl
  | assign target op value position ih => exact assigns target op position ih
  | step target op form position => exact alone rfl rfl

theorem composed : Composed Arranged where
  nil := nil
  append := append
  scope h := (append (alone rfl rfl) h).append (alone rfl rfl)
  expr := expr
  behind e _ hoperands hplain := behind (expr e) hoperands hplain
  alone hoperands hplain _ _ := alone hoperands hplain

end Arranged

end MiniJava
