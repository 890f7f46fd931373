import MiniJava.Proofs.Diagnostics.Clean
import MiniJava.Proofs.Grammar.ProgramSound
import MiniJava.Proofs.Lowering.StaticTypes
import MiniJava.Proofs.Scope.Maps

/-!
# Steps and compound assignments of one

A step of a numeric variable meets the same problems as the compound assignment of one that it
abbreviates, and becomes the same code. The assignment marks its variable and the step does not, so
what is found later is the same exactly if the variable has been assigned before.
-/

namespace MiniJava

namespace Inspection

/-- The same diagnostics, and tables with the same maps. -/
structure Alike (inspection other : Inspection) : Prop where
  diagnostics : inspection.diagnostics = other.diagnostics
  maps : inspection.symbols.maps = other.symbols.maps

namespace Alike

variable {inspection other : Inspection}

theorem report (h : inspection.Alike other) (position : Position) (problem : Problem) :
    (inspection.report position problem).Alike (other.report position problem) :=
  ⟨by rw [Inspection.report, Inspection.report, h.diagnostics], h.maps⟩

theorem reportIf (h : inspection.Alike other) (condition : Bool) (position : Position)
    (problem : Problem) : (inspection.reportIf condition position problem).Alike
      (other.reportIf condition position problem) := by
  cases condition with
  | false => exact h
  | true => exact h.report position problem

theorem declare (h : inspection.Alike other) (name : String) (symbol : Symbol) :
    (inspection.declare name symbol).Alike (other.declare name symbol) := by
  obtain ⟨hanswer, hmaps⟩ := SymbolTable.perform_congr h.maps (.declare name symbol)
  unfold Inspection.declare
  simp only [SymbolTable.perform] at hanswer hmaps
  cases hfirst : inspection.symbols.declare name symbol with
  | ok table =>
      cases hother : other.symbols.declare name symbol with
      | ok extended => exact ⟨h.diagnostics, by simpa [hfirst, hother] using hmaps⟩
      | error previous => simp [hfirst, hother] at hanswer
  | error position =>
      cases hother : other.symbols.declare name symbol with
      | ok extended => simp [hfirst, hother] at hanswer
      | error previous =>
          obtain rfl : position = previous := by simpa [hfirst, hother] using hanswer
          exact h.report _ _

theorem markInitialized (h : inspection.Alike other) (name : String) :
    (inspection.markInitialized name).Alike (other.markInitialized name) :=
  ⟨h.diagnostics, (SymbolTable.perform_congr h.maps (.mark name)).2⟩

theorem lookup? (h : inspection.Alike other) (name : String) :
    inspection.symbols.lookup? name = other.symbols.lookup? name :=
  SymbolTable.lookup?_congr h.maps name

theorem typeOf (h : inspection.Alike other) (e : Expr) :
    inspection.symbols.typeOf e = other.symbols.typeOf e :=
  SymbolTable.typeOf_congr fun name _ => congrArg (Option.map Symbol.type) (h.lookup? name)

theorem read (h : inspection.Alike other) (name : String) (position : Position) :
    (inspection.read name position).type = (other.read name position).type ∧
      (inspection.read name position).after.Alike (other.read name position).after := by
  unfold Inspection.read
  rw [h.lookup? name]
  cases other.symbols.lookup? name with
  | none => exact ⟨rfl, h.report _ _⟩
  | some symbol => exact ⟨rfl, h.reportIf _ _ _⟩

theorem write (h : inspection.Alike other) (name : String) (position : Position) :
    (inspection.write name position).Alike (other.write name position) := by
  unfold Inspection.write
  rw [h.lookup? name]
  cases other.symbols.lookup? name with
  | none => exact h.report _ _
  | some symbol => exact h.reportIf _ _ _

theorem assignable (h : inspection.Alike other) (target : ValueType) (source : Option ValueType)
    (value : Expr) (position : Position) :
    (inspection.assignable target source value position).Alike
      (other.assignable target source value position) := by
  cases source with
  | none => exact h
  | some source => exact h.reportIf _ _ _

theorem store (h : inspection.Alike other) (symbol : Symbol) (op : Option BinaryOp)
    (source : Option ValueType) (value : Expr) (position : Position) :
    (inspection.store symbol op source value position).Alike
      (other.store symbol op source value position) := by
  cases op with
  | none => exact h.assignable _ _ _ _
  | some op => exact h.reportIf _ _ _

theorem check (h : inspection.Alike other) (c : Check) :
    (inspection.check c).Alike (other.check c) := by
  cases c with
  | enter => exact ⟨h.diagnostics, (SymbolTable.perform_congr h.maps .enter).2⟩
  | leave => exact ⟨h.diagnostics, (SymbolTable.perform_congr h.maps .leave).2⟩
  | declares type name position initialized constant => exact h.declare _ _
  | reads name position => exact (h.read name position).2
  | applies op lhs rhs =>
      simp only [Inspection.check, h.typeOf]
      exact h.reportIf _ _ _
  | signs op operand =>
      simp only [Inspection.check, h.typeOf]
      exact h.reportIf _ _ _
  | begins target op value position =>
      simp only [Inspection.check, h.lookup?]
      exact (h.write target position).reportIf _ _ _
  | stores target op value position =>
      simp only [Inspection.check, h.lookup?, h.typeOf]
      cases other.symbols.lookup? target with
      | none => exact h
      | some symbol => exact (h.store _ _ _ _ _).markInitialized target
  | steps target op position =>
      obtain ⟨htype, hafter⟩ := h.read target position
      simp only [Inspection.check, Inspection.expr, htype]
      cases (other.read target position).type with
      | none => exact hafter
      | some type => exact (hafter.write target position).reportIf _ _ _
  | initializes type value position =>
      simp only [Inspection.check, h.typeOf]
      exact h.assignable _ _ _ _
  | tests statement condition =>
      simp only [Inspection.check, h.typeOf]
      cases other.symbols.typeOf condition with
      | none => exact h
      | some type => exact h.reportIf _ _ _
  | gives expected value position =>
      cases expected with
      | none => exact h
      | some expected =>
          cases value with
          | none => exact h.reportIf _ _ _
          | some value =>
              cases expected with
              | void => exact h.report _ _
              | _ =>
                  simp only [Inspection.check, h.typeOf]
                  cases other.symbols.typeOf value with
                  | none => exact h
                  | some type => exact h.reportIf _ _ _
  | ends method expected returns position => exact h.reportIf _ _ _

/-- Inspections that are alike find the same from then on. -/
theorem run (h : inspection.Alike other) (checks : List Check) :
    (inspection.run checks).Alike (other.run checks) := by
  induction checks generalizing inspection other with
  | nil => exact h
  | cons first rest ih => exact ih (h.check first)

end Alike

end Inspection

/-- The operator that a step applies to its variable and one. -/
def StepOp.operator : StepOp → BinaryOp
  | increment => .add
  | decrement => .sub

theorem StepOp.typing_operator (op : StepOp) {type : ValueType} (h : type.isNumeric = true) :
    op.operator.typing (some type) (some .int) ≠ .invalid := by
  cases type with
  | reference written => cases h
  | _ =>
      revert h
      cases op <;> decide

namespace Inspection

variable {inspection : Inspection} {x : String} {symbol : Symbol}

theorem expr_step (h : inspection.symbols.lookup? x = some symbol)
    (hnumeric : symbol.type.isNumeric = true) (op : StepOp) (form : StepForm)
    (position : Position) :
    (inspection.expr (.step x op form position)).after =
      (inspection.reportIf (!symbol.initialized) position (.uninitialized x)).reportIf
        (symbol.constant && symbol.initialized) position (.assignToFinal x) := by
  have hbehind : (inspection.reportIf (!symbol.initialized) position
      (.uninitialized x)).symbols.lookup? x = some symbol := by rw [symbols_reportIf, h]
  simp only [expr, read, h, write, hbehind, hnumeric]
  rfl

theorem expr_update (h : inspection.symbols.lookup? x = some symbol)
    (hnumeric : symbol.type.isNumeric = true) (op : StepOp) (one position : Position) :
    (inspection.expr (.assign x (some op.operator) (.literal (.number "1") one) position)).after =
      ((inspection.reportIf (symbol.constant && symbol.initialized) position
        (.assignToFinal x)).reportIf (!symbol.initialized) position
          (.uninitialized x)).markInitialized x := by
  have hone : ValueType.ofLiteral (.number "1") = .int := by decide
  have htyping := op.typing_operator hnumeric
  simp only [expr, write, h, store, hone, decide_eq_false htyping]
  rfl

/-- Both report an unassigned variable, or else an assigned final one. -/
theorem problems_step (h : inspection.symbols.lookup? x = some symbol)
    (hnumeric : symbol.type.isNumeric = true) (op : StepOp) (form : StepForm)
    (position place one : Position) :
    (inspection.expr (.step x op form position)).after.diagnostics.map Diagnostic.problem =
      (inspection.expr (.assign x (some op.operator) (.literal (.number "1") one)
        place)).after.diagnostics.map Diagnostic.problem := by
  rw [expr_step h hnumeric, expr_update h hnumeric]
  cases symbol.initialized <;> cases symbol.constant <;> simp [reportIf, report, markInitialized]

/-- A mark changes what is found later exactly if the variable has not been assigned: then a read
of it tells. -/
theorem run_marked_iff {table : SymbolTable} (h : table.lookup? x = some symbol) :
    (∀ later, ((⟨table.markInitialized x, []⟩ : Inspection).run later).diagnostics =
      ((⟨table, []⟩ : Inspection).run later).diagnostics) ↔ symbol.initialized = true := by
  constructor
  · intro hlater
    have hread := hlater [.reads x default]
    have hmarked := SymbolTable.lookup?_marked h
    simp only [run_cons, run_nil, check, read, h, hmarked, Symbol.marked] at hread
    cases hinitialized : symbol.initialized with
    | true => rfl
    | false => simp [hinitialized, reportIf, report] at hread
  · intro hinitialized later
    have halike : Alike ⟨table.markInitialized x, []⟩ ⟨table, []⟩ :=
      ⟨rfl, (SymbolTable.maps_markInitialized h).mpr hinitialized⟩
    exact (halike.run later).diagnostics

end Inspection

namespace Lowering

variable (place : Place) (shared : Bool) (table : SymbolTable)

theorem stmt_step (x : String) (op : StepOp) (form : StepForm) (position : Position) :
    (stmt place shared (.expression (.step x op form position))).outcome table =
      (.ok [.update (place.reference table x) (.applying op.operator) (.number "1")], table) := by
  rw [stmt]
  cases op <;> rfl

theorem stmt_update (x : String) (op : StepOp) (one position : Position) :
    (stmt place shared (.expression
      (.assign x (some op.operator) (.literal (.number "1") one) position))).outcome table =
      (.ok [.update (place.reference table x) (.applying op.operator) (.number "1")], table) := by
  have hop : op.operator ≠ .ushr := by cases op <;> decide
  have hone : expr place table (.literal (.number "1") one) = .ok (.number "1") := rfl
  rw [stmt, effect_update hop hone x position]
  cases op <;> rfl

end Lowering

namespace Inspection

variable {inspection : Inspection} {x : String} {symbol : Symbol}

/-- A step and the compound assignment of one that it abbreviates meet the same problems and become
the same code. Only the assignment marks its variable; so the tables behind them are the same, and
whatever is checked from then on is found alike, exactly if the variable was marked before. -/
theorem step_like_update (h : inspection.symbols.lookup? x = some symbol)
    (hnumeric : symbol.type.isNumeric = true) (op : StepOp) (form : StepForm)
    (expected : Option ValueType) (position place one : Position) :
    let step : Stmt := .expression (.step x op form position)
    let update : Stmt :=
      .expression (.assign x (some op.operator) (.literal (.number "1") one) place)
    let stepped := inspection.stmt expected step
    let updated := inspection.stmt expected update
    stepped.diagnostics.map Diagnostic.problem = updated.diagnostics.map Diagnostic.problem ∧
    stepped.diagnostics.map Diagnostic.kind = updated.diagnostics.map Diagnostic.kind ∧
    updated.symbols = stepped.symbols.markInitialized x ∧
    (updated.symbols.maps = stepped.symbols.maps ↔ symbol.initialized = true) ∧
    ((∀ later, ((⟨updated.symbols, []⟩ : Inspection).run later).diagnostics =
      ((⟨stepped.symbols, []⟩ : Inspection).run later).diagnostics) ↔
        symbol.initialized = true) ∧
    ∀ place shared table,
      (Lowering.stmt place shared step).outcome table =
        (Lowering.stmt place shared update).outcome table ∧
      (Lowering.stmt place shared step).outcome table =
        (.ok [.update (place.reference table x) (.applying op.operator) (.number "1")], table) := by
  intro step update stepped updated
  have hsame : stepped.symbols = inspection.symbols := by
    simp [stepped, step, stmt, expr_step h hnumeric]
  have hmarked : updated.symbols = inspection.symbols.markInitialized x := by
    simp [updated, update, stmt, expr_update h hnumeric, markInitialized]
  have hproblems : stepped.diagnostics.map Diagnostic.problem =
      updated.diagnostics.map Diagnostic.problem :=
    problems_step h hnumeric op form position place one
  have hkinds := congrArg (List.map Problem.kind) hproblems
  rw [List.map_map, List.map_map] at hkinds
  rw [hsame, hmarked]
  refine ⟨hproblems, hkinds, rfl, SymbolTable.maps_markInitialized h, run_marked_iff h,
    fun place shared table => ?_⟩
  rw [Lowering.stmt_step, Lowering.stmt_update]
  exact ⟨rfl, rfl⟩

/-- A final character that has a value is stepped as little as it is assigned, and what comes later
is found alike; behind a step of a variable without a value it is not. -/
theorem step_like_update_shadowed :
    let found (inspection : Inspection) (later : List Check) : List Diagnostic :=
      ((⟨inspection.symbols, []⟩ : Inspection).run later).diagnostics
    let symbol (initialized : Bool) : Symbol := ⟨.char, ⟨2, 6⟩, initialized, true⟩
    let inspection (initialized : Bool) : Inspection :=
      ⟨⟨[("x", symbol initialized)], [[("x", ⟨.boolean, ⟨1, 9⟩, false, false⟩)]]⟩, []⟩
    let stepped (initialized : Bool) : Inspection :=
      (inspection initialized).stmt none (.expression (.step "x" .decrement .before ⟨3, 3⟩))
    let updated (initialized : Bool) : Inspection :=
      (inspection initialized).stmt none
        (.expression (.assign "x" (some .sub) (.literal (.number "1") ⟨3, 6⟩) ⟨3, 1⟩))
    (stepped true).diagnostics.map Diagnostic.kind = [.assignToFinal] ∧
    (updated true).diagnostics.map Diagnostic.kind = [.assignToFinal] ∧
    (∀ later, found (updated true) later = found (stepped true) later) ∧
    (stepped false).diagnostics.map Diagnostic.kind = [.uninitialized] ∧
    (updated false).diagnostics.map Diagnostic.kind = [.uninitialized] ∧
    ¬ ∀ later, found (updated false) later = found (stepped false) later := by
  intro found symbol inspection stepped updated
  have hlater (initialized : Bool) :
      (∀ later, found (updated initialized) later = found (stepped initialized) later) ↔
        initialized = true :=
    (step_like_update
      (rfl : (inspection initialized).symbols.lookup? "x" = some (symbol initialized)) rfl
      .decrement .before none ⟨3, 3⟩ ⟨3, 1⟩ ⟨3, 6⟩).2.2.2.2.1
  exact ⟨by decide, by decide, (hlater true).mpr rfl, by decide, by decide,
    fun hall => Bool.false_ne_true ((hlater false).mp hall)⟩

end Inspection

namespace Program

/-- A second step of a variable without a value is an error again, and a second compound assignment
is none. -/
theorem step_leaves_unassigned :
    (∃ program, ofSource "int x; x += 1; x += 1;" = .ok program ∧
      program.diagnostics.map Diagnostic.kind = [.uninitialized]) ∧
    ∃ program, ofSource "int x; x++; x++;" = .ok program ∧
      program.diagnostics.map Diagnostic.kind = [.uninitialized, .uninitialized] :=
  ⟨exists_program _ (fun program =>
      program.diagnostics.map Diagnostic.kind = [.uninitialized]) (by decide +kernel),
    exists_program _ (fun program =>
      program.diagnostics.map Diagnostic.kind = [.uninitialized, .uninitialized])
      (by decide +kernel)⟩

end Program

end MiniJava
