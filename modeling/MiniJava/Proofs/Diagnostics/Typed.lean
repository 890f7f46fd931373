import MiniJava.Proofs.Diagnostics.Clean

/-!
# Types in clean programs

The checker leaves the type of an expression open where it cannot tell it. In a clean program it
always can: every name is declared, so every operator is applied to operands of known types. The
types of variables are written ones, so none of them is the type of `null`.
-/

namespace MiniJava

@[simp] theorem Typing.guarded_ne_unknown (condition : Bool) (type : ValueType) :
    guarded condition type ≠ .unknown := by
  unfold guarded
  split <;> simp

theorem Typing.of_guarded {condition : Bool} {result type : ValueType}
    (h : guarded condition result = .typed type) : condition = true ∧ result = type := by
  cases condition <;> simp_all [guarded]

theorem Typing.exists_typed {typing : Typing} (hknown : typing ≠ .unknown)
    (hvalid : typing ≠ .invalid) : ∃ type, typing = .typed type := by
  cases typing with
  | typed type => exact ⟨type, rfl⟩
  | unknown => exact absurd rfl hknown
  | invalid => exact absurd rfl hvalid

theorem BinaryOp.typingOf_ne_unknown (op : BinaryOp) (lhs rhs : ValueType) :
    op.typingOf lhs rhs ≠ .unknown := by
  cases op <;> simp only [typingOf] <;> (try split) <;> simp

theorem BinaryOp.exists_typed {op : BinaryOp} {lhs rhs : ValueType}
    (h : op.typing (some lhs) (some rhs) ≠ .invalid) :
    ∃ type, op.typing (some lhs) (some rhs) = .typed type := by
  refine Typing.exists_typed ?_ h
  unfold typing
  split
  · simp
  · exact op.typingOf_ne_unknown lhs rhs

theorem UnaryOp.exists_typed {op : UnaryOp} {operand : ValueType}
    (h : op.typing (some operand) ≠ .invalid) : ∃ type, op.typing (some operand) = .typed type := by
  refine Typing.exists_typed ?_ h
  cases op <;> simp [typing]

namespace SymbolTable

theorem run_expr_bare (table : SymbolTable) (e : Expr) : (table.run e.checks).bare = table.bare := by
  have hbare := Inspection.expr_bare e ⟨table, []⟩
  rwa [Inspection.run_expr, Inspection.symbols_run] at hbare

theorem typeOf_run (table : SymbolTable) (e value : Expr) :
    (table.run e.checks).typeOf value = table.typeOf value :=
  typeOf_of_bare (table.run_expr_bare e) value

/-- Every check of a sequence passes. -/
def Clean (table : SymbolTable) (checks : List Check) : Prop :=
  ∀ visit ∈ table.visits checks, visit.Passes

variable {table : SymbolTable} {checks more : List Check}

theorem clean_append :
    table.Clean (checks ++ more) ↔ table.Clean checks ∧ (table.run checks).Clean more := by
  rw [Clean, visits_append, List.forall_mem_append]
  rfl

theorem clean_cons {c : Check} :
    table.Clean (c :: checks) ↔ c.Passes table ∧ (c.after table).Clean checks := by
  rw [Clean, visits_cons, List.forall_mem_cons]
  rfl

theorem exists_typeOf_name {name : String} {symbol : Symbol}
    (h : table.lookup? name = some symbol) :
    (table.lookup? name).map Symbol.type = some symbol.type := by rw [h]; rfl

/-- An expression without a diagnostic has a known type. -/
theorem exists_typeOf (e : Expr) {table : SymbolTable} (h : table.Clean e.checks) :
    ∃ type, table.typeOf e = some type := by
  induction e generalizing table with
  | literal value position => exact ⟨_, rfl⟩
  | name word position =>
      obtain ⟨symbol, hsymbol, -⟩ := Check.passes_reads.mp (clean_cons.mp h).1
      exact ⟨symbol.type, exists_typeOf_name hsymbol⟩
  | binary op lhs rhs ihl ihr =>
      rw [Expr.checks, clean_append, clean_append, clean_cons] at h
      obtain ⟨⟨hl, hr⟩, happlies, -⟩ := h
      obtain ⟨left, hleft⟩ := ihl hl
      obtain ⟨right, hright⟩ := ihr hr
      rw [typeOf_run] at hright
      have hvalid := Check.passes_applies.mp happlies
      rw [run_append, typeOf_run, typeOf_run, typeOf_run, typeOf_run, hleft, hright] at hvalid
      obtain ⟨type, htype⟩ := BinaryOp.exists_typed hvalid
      exact ⟨type, by rw [typeOf, hleft, hright, htype]; rfl⟩
  | unary op operand ih =>
      rw [Expr.checks, clean_append, clean_cons] at h
      obtain ⟨hoperand, hsigns, -⟩ := h
      obtain ⟨inner, hinner⟩ := ih hoperand
      have hvalid := Check.passes_signs.mp hsigns
      rw [typeOf_run, hinner] at hvalid
      obtain ⟨type, htype⟩ := UnaryOp.exists_typed hvalid
      exact ⟨type, by rw [typeOf, hinner, htype]; rfl⟩
  | assign target op value position ih =>
      obtain ⟨symbol, hsymbol, -⟩ := Check.passes_begins.mp (clean_cons.mp h).1
      exact ⟨symbol.type, exists_typeOf_name hsymbol⟩
  | step target op form position =>
      obtain ⟨symbol, hsymbol, -⟩ := Check.passes_steps.mp (clean_cons.mp h).1
      exact ⟨symbol.type, exists_typeOf_name hsymbol⟩

end SymbolTable

def SymbolTable.Typed (table : SymbolTable) (checks : List Check) : Prop :=
  ∀ visit ∈ table.visits checks, ∀ e ∈ visit.check.operands,
    ∃ type, visit.table.typeOf e = some type

namespace SymbolTable

variable {table : SymbolTable} {checks more : List Check}

theorem typed_append :
    table.Typed (checks ++ more) ↔ table.Typed checks ∧ (table.run checks).Typed more := by
  rw [Typed, visits_append, List.forall_mem_append]
  rfl

theorem typed_cons {c : Check} : table.Typed (c :: checks) ↔
    (∀ e ∈ c.operands, ∃ type, table.typeOf e = some type) ∧ (c.after table).Typed checks := by
  rw [Typed, visits_cons, List.forall_mem_cons]
  rfl

theorem typed_alone {c : Check} (h : c.operands = []) : table.Typed [c] := by
  rw [typed_cons, h]
  exact ⟨nofun, nofun⟩

/-- Behind the checks of an expression its type is known. -/
theorem typed_behind {e : Expr} {c : Check} (hoperands : c.operands = [e])
    (h : table.Clean e.checks) : (table.run e.checks).Typed [c] := by
  rw [typed_cons, hoperands, List.forall_mem_singleton, typeOf_run]
  exact ⟨exists_typeOf e h, nofun⟩

end SymbolTable

theorem Arranged.typed {checks : List Check} (harranged : Arranged checks) {table : SymbolTable}
    (h : table.Clean checks) : table.Typed checks := by
  induction harranged generalizing table with
  | nil => exact nofun
  | append _ _ ih ihmore =>
      obtain ⟨hchecks, hmore⟩ := SymbolTable.clean_append.mp h
      exact SymbolTable.typed_append.mpr ⟨ih hchecks, ihmore hmore⟩
  | alone hoperands hplain => exact SymbolTable.typed_alone hoperands
  | behind _ hoperands hplain ih =>
      have hoperand := (SymbolTable.clean_append.mp h).1
      exact SymbolTable.typed_append.mpr ⟨ih hoperand, SymbolTable.typed_behind hoperands hoperand⟩
  | @applies lhs rhs op _ _ ihl ihr =>
      obtain ⟨hoperands, -⟩ := SymbolTable.clean_append.mp h
      obtain ⟨hl, hr⟩ := SymbolTable.clean_append.mp hoperands
      refine SymbolTable.typed_append.mpr ⟨SymbolTable.typed_append.mpr ⟨ihl hl, ihr hr⟩, ?_⟩
      rw [SymbolTable.typed_cons, SymbolTable.run_append]
      refine ⟨fun e he => ?_, nofun⟩
      rw [SymbolTable.typeOf_run]
      obtain rfl | rfl : e = lhs ∨ e = rhs := by simpa [Check.operands] using he
      · rw [SymbolTable.typeOf_run]
        exact SymbolTable.exists_typeOf e hl
      · exact SymbolTable.exists_typeOf e hr
  | @assigns value target op position _ ih =>
      obtain ⟨hbegins, hrest⟩ := SymbolTable.clean_cons.mp h
      obtain ⟨symbol, hsymbol, -⟩ := Check.passes_begins.mp hbegins
      rw [Check.after_eq] at hrest
      obtain ⟨hvalue, -⟩ := SymbolTable.clean_append.mp hrest
      refine SymbolTable.typed_cons.mpr ⟨nofun, SymbolTable.typed_append.mpr ?_⟩
      rw [Check.after_eq]
      refine ⟨ih hvalue, SymbolTable.typed_cons.mpr ⟨fun e he => ?_, nofun⟩⟩
      rw [SymbolTable.typeOf_run]
      obtain rfl | rfl : e = .name target position ∨ e = value := by
        simpa [Check.operands] using he
      · exact ⟨symbol.type, SymbolTable.exists_typeOf_name hsymbol⟩
      · exact SymbolTable.exists_typeOf e hvalue

theorem Program.operands_typed {program : Program} (h : program.diagnostics = []) :
    ∀ visit ∈ program.visits, ∀ e ∈ visit.check.operands,
      ∃ type, visit.table.typeOf e = some type :=
  (Arranged.composed.program program).typed ((clean_iff program).mp h)

/-- What every check keeps holds of the tables of all visits. -/
theorem SymbolTable.visits_invariant {P : SymbolTable → Prop}
    (hstep : ∀ table (c : Check), P table → P (c.after table)) (checks : List Check)
    {table : SymbolTable} (h : P table) : ∀ visit ∈ table.visits checks, P visit.table := by
  induction checks generalizing table with
  | nil => exact nofun
  | cons first rest ih =>
      rw [SymbolTable.visits_cons, List.forall_mem_cons]
      exact ⟨h, ih (hstep table first h)⟩

theorem ValueType.ofTypeName_ne_null (type : TypeName) : ofTypeName type ≠ .null := by
  unfold ofTypeName
  split
  · simp
  · split <;> simp

def SymbolTable.Written (table : SymbolTable) : Prop :=
  ∀ scope ∈ table.scopes, ∀ entry ∈ scope, entry.2.type ≠ .null

namespace SymbolTable

theorem written_bare (table : SymbolTable) : table.bare.Written ↔ table.Written := by
  have hscopes : table.bare.scopes = table.scopes.map Scope.bare := rfl
  simp only [Written, hscopes, List.forall_mem_map, Scope.bare]
  rfl

variable {table : SymbolTable}

theorem Written.bring (h : table.Written) (name : String) {symbol : Symbol}
    (hsymbol : symbol.type ≠ .null) : (table.bring name symbol).Written := by
  unfold SymbolTable.bring
  split
  · exact h
  · obtain ⟨hcurrent, henclosing⟩ := List.forall_mem_cons.mp h
    exact List.forall_mem_cons.mpr ⟨List.forall_mem_cons.mpr ⟨hsymbol, hcurrent⟩, henclosing⟩

theorem Written.leave (h : table.Written) : table.leave.Written := by
  unfold SymbolTable.leave
  split
  · exact h
  · next henclosing =>
      have hall := (List.forall_mem_cons.mp h).2
      rwa [henclosing] at hall

theorem Written.after (h : table.Written) (c : Check) : (c.after table).Written := by
  rw [Check.after_eq]
  cases c with
  | enter => exact List.forall_mem_cons.mpr ⟨nofun, h⟩
  | leave => exact h.leave
  | declares type name position initialized constant =>
      exact h.bring name (ValueType.ofTypeName_ne_null type)
  | stores target op value position =>
      rw [← written_bare, bare_markInitialized, written_bare]
      exact h
  | _ => exact h

theorem resolveIn_mem {name : String} {symbol : Symbol} {number : Nat} {scopes : List Scope}
    (h : resolveIn name scopes = some (number, symbol)) :
    ∃ scope ∈ scopes, (name, symbol) ∈ scope := by
  induction scopes with
  | nil => cases h
  | cons scope outer ih =>
      rw [resolveIn] at h
      cases hlookup : scope.lookup name with
      | some found =>
          rw [hlookup] at h
          obtain ⟨front, rest, hscope, -⟩ := List.lookup_eq_some_iff.mp hlookup
          cases h
          exact ⟨scope, List.mem_cons_self, hscope ▸ List.mem_append_right _ List.mem_cons_self⟩
      | none =>
          rw [hlookup] at h
          obtain ⟨found, hfound, hmem⟩ := ih h
          exact ⟨found, List.mem_cons_of_mem _ hfound, hmem⟩

theorem Written.lookup (h : table.Written) {name : String} {symbol : Symbol}
    (hsymbol : table.lookup? name = some symbol) : symbol.type ≠ .null := by
  obtain ⟨⟨number, found⟩, hfound, rfl⟩ := Option.map_eq_some_iff.mp hsymbol
  obtain ⟨scope, hscope, hmem⟩ := resolveIn_mem hfound
  exact h scope hscope _ hmem

end SymbolTable

theorem Program.visits_written (program : Program) :
    ∀ visit ∈ program.visits, visit.table.Written :=
  SymbolTable.visits_invariant (fun _ c h => h.after c) program.checks
    (List.forall_mem_singleton.mpr nofun)

end MiniJava
