import MiniJava.Proofs.Diagnostics.Checks

/-!
# Clean programs

A program is clean if and only if each of its checks passes with the table that the earlier checks
leave. What passing means is said once for every kind of check, and so is what the check does to
the table.
-/

namespace MiniJava

namespace Inspection

/-- The inspection with earlier diagnostics in front of its own. -/
def behind (inspection : Inspection) (earlier : List Diagnostic) : Inspection :=
  { inspection with diagnostics := earlier ++ inspection.diagnostics }

section Behind

variable (inspection : Inspection) (earlier : List Diagnostic)

@[simp] theorem symbols_behind : (inspection.behind earlier).symbols = inspection.symbols := rfl

@[simp] theorem report_behind (position : Position) (problem : Problem) :
    (inspection.behind earlier).report position problem =
      (inspection.report position problem).behind earlier := by
  simp [report, behind]

@[simp] theorem reportIf_behind (condition : Bool) (position : Position) (problem : Problem) :
    (inspection.behind earlier).reportIf condition position problem =
      (inspection.reportIf condition position problem).behind earlier := by
  unfold reportIf
  split
  · exact inspection.report_behind earlier position problem
  · rfl

@[simp] theorem declare_behind (name : String) (symbol : Symbol) :
    (inspection.behind earlier).declare name symbol =
      (inspection.declare name symbol).behind earlier := by
  unfold declare
  rw [symbols_behind]
  cases inspection.symbols.declare name symbol with
  | ok symbols => rfl
  | error previous => exact inspection.report_behind ..

@[simp] theorem read_behind (name : String) (position : Position) :
    (inspection.behind earlier).read name position =
      ⟨(inspection.read name position).type,
        (inspection.read name position).after.behind earlier⟩ := by
  unfold read
  rw [symbols_behind]
  cases inspection.symbols.lookup? name <;> simp

@[simp] theorem write_behind (name : String) (position : Position) :
    (inspection.behind earlier).write name position =
      (inspection.write name position).behind earlier := by
  unfold write
  rw [symbols_behind]
  cases inspection.symbols.lookup? name <;> simp

@[simp] theorem assignable_behind (target : ValueType) (source : Option ValueType) (value : Expr)
    (position : Position) :
    (inspection.behind earlier).assignable target source value position =
      (inspection.assignable target source value position).behind earlier := by
  cases source with
  | none => rfl
  | some source => exact inspection.reportIf_behind ..

@[simp] theorem store_behind (symbol : Symbol) (op : Option BinaryOp) (source : Option ValueType)
    (value : Expr) (position : Position) :
    (inspection.behind earlier).store symbol op source value position =
      (inspection.store symbol op source value position).behind earlier := by
  cases op with
  | none => exact inspection.assignable_behind ..
  | some op => exact inspection.reportIf_behind ..

theorem check_behind (c : Check) :
    (inspection.behind earlier).check c = (inspection.check c).behind earlier := by
  cases c with
  | stores target op value position =>
      rw [check, check, symbols_behind]
      cases inspection.symbols.lookup? target with
      | none => rfl
      | some symbol => simp only [store_behind]; rfl
  | steps target op position =>
      simp only [check, expr, read_behind]
      cases (inspection.read target position).type <;> simp
  | tests statement condition =>
      rw [check, check, symbols_behind]
      cases inspection.symbols.typeOf condition <;> simp
  | gives expected value position =>
      cases expected with
      | none => rfl
      | some expected =>
          cases value with
          | none => exact inspection.reportIf_behind ..
          | some value =>
              cases expected <;> simp only [check, symbols_behind] <;>
                cases inspection.symbols.typeOf value <;> simp
  | enter | leave => rfl
  | applies | signs => exact inspection.reportIf_behind ..
  | _ => simp [check]

end Behind

theorem check_eq (inspection : Inspection) (c : Check) :
    inspection.check c = ((⟨inspection.symbols, []⟩ : Inspection).check c).behind
      inspection.diagnostics := by
  rw [← check_behind]
  simp [behind]

end Inspection

namespace Check

/-- The table behind a check. -/
def after (table : SymbolTable) (c : Check) : SymbolTable := (Inspection.check ⟨table, []⟩ c).symbols

def Passes (table : SymbolTable) (c : Check) : Prop :=
  (Inspection.check ⟨table, []⟩ c).diagnostics = []

instance (table : SymbolTable) (c : Check) : Decidable (c.Passes table) :=
  inferInstanceAs (Decidable (_ = _))

end Check

structure Visit where
  table : SymbolTable
  check : Check
deriving DecidableEq

def Visit.Passes (visit : Visit) : Prop := visit.check.Passes visit.table

namespace SymbolTable

variable (table : SymbolTable)

/-- The table behind a sequence of checks. -/
def run (checks : List Check) : SymbolTable := checks.foldl Check.after table

def visits (table : SymbolTable) : List Check → List Visit
  | [] => []
  | first :: rest => ⟨table, first⟩ :: visits (first.after table) rest

@[simp] theorem run_nil : table.run [] = table := rfl

@[simp] theorem run_cons (first : Check) (rest : List Check) :
    table.run (first :: rest) = (first.after table).run rest := rfl

@[simp] theorem run_append (checks more : List Check) :
    table.run (checks ++ more) = (table.run checks).run more := List.foldl_append

@[simp] theorem visits_nil : table.visits [] = [] := rfl

@[simp] theorem visits_cons (first : Check) (rest : List Check) :
    table.visits (first :: rest) = ⟨table, first⟩ :: (first.after table).visits rest := rfl

@[simp] theorem visits_append (checks more : List Check) :
    table.visits (checks ++ more) = table.visits checks ++ (table.run checks).visits more := by
  induction checks generalizing table with
  | nil => rfl
  | cons first rest ih => rw [List.cons_append, visits, ih, run_cons, visits, List.cons_append]

theorem getElem?_visits (checks : List Check) (i : Nat) :
    (table.visits checks)[i]? = checks[i]?.map fun c => ⟨table.run (checks.take i), c⟩ := by
  induction checks generalizing table i with
  | nil => rfl
  | cons first rest ih =>
      cases i with
      | zero => rfl
      | succ i => exact ih (first.after table) i

end SymbolTable

namespace Inspection

theorem symbols_check (inspection : Inspection) (c : Check) :
    (inspection.check c).symbols = c.after inspection.symbols := by
  rw [check_eq]
  rfl

theorem symbols_run (checks : List Check) (inspection : Inspection) :
    (inspection.run checks).symbols = inspection.symbols.run checks := by
  induction checks generalizing inspection with
  | nil => rfl
  | cons first rest ih => rw [run_cons, ih, symbols_check, SymbolTable.run_cons]

/-- A run finds nothing if and only if every check passes with the table in front of it. -/
theorem diagnostics_run (checks : List Check) (inspection : Inspection) :
    (inspection.run checks).diagnostics = [] ↔
      inspection.diagnostics = [] ∧ ∀ visit ∈ inspection.symbols.visits checks, visit.Passes := by
  induction checks generalizing inspection with
  | nil => simp
  | cons first rest ih =>
      have hfirst : (inspection.check first).diagnostics = [] ↔
          inspection.diagnostics = [] ∧ first.Passes inspection.symbols := by
        rw [check_eq]
        exact List.append_eq_nil_iff
      rw [run_cons, ih, hfirst, symbols_check, SymbolTable.visits_cons, List.forall_mem_cons,
        and_assoc]
      rfl

end Inspection

namespace Program

/-- The checks of a program, each with the table that the earlier ones leave. -/
def visits (program : Program) : List Visit := SymbolTable.empty.visits program.checks

theorem clean_iff (program : Program) :
    program.diagnostics = [] ↔ ∀ visit ∈ program.visits, visit.Passes := by
  rw [diagnostics_eq_run, Inspection.diagnostics_run]
  exact and_iff_right rfl

/-- The table that the checker has in front of its check number `i`. -/
def tableAt (program : Program) (i : Nat) : SymbolTable :=
  SymbolTable.empty.run (program.checks.take i)

theorem passes_at {program : Program} (h : program.diagnostics = []) {i : Nat} {c : Check}
    (hc : program.checks[i]? = some c) : c.Passes (program.tableAt i) := by
  refine (clean_iff program).mp h ⟨program.tableAt i, c⟩ (List.mem_iff_getElem?.mpr ⟨i, ?_⟩)
  rw [visits, SymbolTable.getElem?_visits, hc]
  rfl

theorem tableAt_succ {program : Program} {i : Nat} {c : Check} (h : program.checks[i]? = some c) :
    program.tableAt (i + 1) = c.after (program.tableAt i) := by
  rw [tableAt, tableAt, List.take_add_one, h, SymbolTable.run_append]
  rfl

/-- Behind the last check the table stays as it is. -/
theorem tableAt_succ_of_none {program : Program} {i : Nat} (h : program.checks[i]? = none) :
    program.tableAt (i + 1) = program.tableAt i := by
  rw [tableAt, tableAt, List.take_add_one, h, Option.toList_none, List.append_nil]

end Program

namespace SymbolTable

/-- Marking a name that nothing declares changes nothing. -/
theorem markInitialized_undeclared {table : SymbolTable} {name : String}
    (h : table.lookup? name = none) : table.markInitialized name = table := by
  have hscopes (scopes : List Scope) (hnone : resolveIn name scopes = none) :
      markIn name scopes = scopes := by
    induction scopes with
    | nil => rfl
    | cons scope outer ih =>
        rw [resolveIn] at hnone
        cases hlookup : scope.lookup name with
        | some symbol => simp [hlookup] at hnone
        | none =>
            rw [hlookup] at hnone
            simp [markIn, hlookup, ih hnone]
  rw [lookup?, Option.map_eq_none_iff, resolve?, scopes, resolveIn] at h
  cases hlookup : table.current.lookup name with
  | some symbol => simp [hlookup] at h
  | none =>
      rw [hlookup] at h
      simp [markInitialized, hlookup, hscopes _ h]

end SymbolTable

theorem Check.after_eq (table : SymbolTable) (c : Check) : c.after table =
    match c with
    | .enter => table.enter
    | .leave => table.leave
    | .declares type name position initialized constant =>
      table.bring name ⟨.ofTypeName type, position, initialized, constant⟩
    | .stores target _ _ _ => table.markInitialized target
    | _ => table := by
  cases c with
  | declares type name position initialized constant => exact Inspection.symbols_declare ..
  | stores target op value position =>
      rw [after, Inspection.check]
      cases h : table.lookup? target with
      | none => exact (SymbolTable.markInitialized_undeclared h).symm
      | some symbol => simp [Inspection.markInitialized]
  | steps target op position =>
      simp only [after, Inspection.check, Inspection.expr]
      cases (Inspection.read ⟨table, []⟩ target position).type <;> simp
  | tests statement condition =>
      simp only [after, Inspection.check]
      cases table.typeOf condition <;> simp
  | gives expected value position =>
      cases expected with
      | none => rfl
      | some expected =>
          cases value with
          | none => exact Inspection.symbols_reportIf ..
          | some value =>
              cases expected <;> simp only [after, Inspection.check] <;>
                cases table.typeOf value <;> simp [Inspection.report]
  | _ => simp [after, Inspection.check, Inspection.enter, Inspection.leave]

namespace Check

variable {table : SymbolTable}

theorem passes_reportIf {inspection : Inspection} {condition : Bool} {position : Position}
    {problem : Problem} : (inspection.reportIf condition position problem).diagnostics = [] ↔
      inspection.diagnostics = [] ∧ condition = false := by
  cases condition <;> simp [Inspection.reportIf, Inspection.report]

theorem passes_declares {type : TypeName} {name : String} {position : Position}
    {initialized constant : Bool} :
    (declares type name position initialized constant).Passes table ↔
      table.current.lookup name = none := by
  rw [Passes, Inspection.check, Inspection.declare, SymbolTable.declare]
  cases table.current.lookup name <;> simp [Inspection.report]

theorem passes_reads {name : String} {position : Position} :
    (reads name position).Passes table ↔
      ∃ symbol, table.lookup? name = some symbol ∧ symbol.initialized = true := by
  rw [Passes, Inspection.check, Inspection.read]
  cases table.lookup? name with
  | none => simp [Inspection.report]
  | some symbol => simp [passes_reportIf]

theorem passes_applies {op : BinaryOp} {lhs rhs : Expr} :
    (applies op lhs rhs).Passes table ↔
      op.typing (table.typeOf lhs) (table.typeOf rhs) ≠ .invalid := by
  simp [Passes, Inspection.check, Inspection.conclude, passes_reportIf]

theorem passes_signs {op : UnaryOp} {operand : Expr} :
    (signs op operand).Passes table ↔ op.typing (table.typeOf operand) ≠ .invalid := by
  simp [Passes, Inspection.check, Inspection.conclude, passes_reportIf]

/-- A final variable must not have been assigned, and the target of a compound assignment must. -/
theorem passes_begins {target : String} {op : Option BinaryOp} {value : Expr}
    {position : Position} : (begins target op value position).Passes table ↔
      ∃ symbol, table.lookup? target = some symbol ∧
        (symbol.constant = true → symbol.initialized = false) ∧
        (op.isSome = true → symbol.initialized = true) := by
  rw [Passes, Inspection.check, passes_reportIf, Inspection.write]
  cases table.lookup? target with
  | none => simp [Inspection.report]
  | some symbol => simp [passes_reportIf]

theorem passes_assign {target : String} {value : Expr} {position : Position} {symbol : Symbol}
    (h : table.lookup? target = some symbol) :
    (stores target none value position).Passes table ↔
      ∀ source, table.typeOf value = some source →
        symbol.type.accepts source = true ∨ Inspection.narrows symbol.type value = true := by
  simp only [Passes, Inspection.check, h, Inspection.store, Inspection.assignable,
    Inspection.markInitialized]
  cases table.typeOf value with
  | none => simp
  | some source => cases h : symbol.type.accepts source <;> simp [passes_reportIf, h]

theorem passes_compound {target : String} {op : BinaryOp} {value : Expr} {position : Position}
    {symbol : Symbol} (h : table.lookup? target = some symbol) :
    (stores target (some op) value position).Passes table ↔
      op.typing (some symbol.type) (table.typeOf value) ≠ .invalid := by
  simp [Passes, Inspection.check, h, Inspection.store, Inspection.markInitialized, passes_reportIf]

theorem passes_steps {target : String} {op : StepOp} {position : Position} :
    (steps target op position).Passes table ↔
      ∃ symbol, table.lookup? target = some symbol ∧ symbol.initialized = true ∧
        symbol.constant = false ∧ symbol.type.isNumeric = true := by
  rw [Passes, Inspection.check, Inspection.expr, Inspection.read]
  cases h : table.lookup? target with
  | none => simp [Inspection.report]
  | some symbol =>
      have hwrite (inspection : Inspection) (hsymbols : inspection.symbols = table) :
          (inspection.write target position).diagnostics = [] ↔
            inspection.diagnostics = [] ∧ (symbol.constant && symbol.initialized) = false := by
        rw [Inspection.write, hsymbols, h, passes_reportIf]
      simp [passes_reportIf, hwrite]
      grind

theorem passes_initializes {type : TypeName} {value : Expr} {position : Position} :
    (initializes type value position).Passes table ↔
      ∀ source, table.typeOf value = some source →
        (ValueType.ofTypeName type).accepts source = true ∨
          Inspection.narrows (.ofTypeName type) value = true := by
  simp only [Passes, Inspection.check, Inspection.assignable]
  cases table.typeOf value with
  | none => simp
  | some source =>
      cases h : (ValueType.ofTypeName type).accepts source <;> simp [passes_reportIf, h]

theorem passes_tests {statement : Conditional} {condition : Expr} :
    (tests statement condition).Passes table ↔
      ∀ type, table.typeOf condition = some type → type = .boolean := by
  simp only [Passes, Inspection.check]
  cases table.typeOf condition with
  | none => simp
  | some type => simp [passes_reportIf]

end Check

end MiniJava
