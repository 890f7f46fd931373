import MiniJava.Proofs.Diagnostics.Typed
import MiniJava.Proofs.Grammar.ProgramSound

/-!
# What clean programs store

Every write of a program stores a value of some static type in a variable of some declared type.
The checker compares the two for an initial value and for a plain assignment. For a compound
assignment it only asks whether the operator applies to the operands, so the type of the result may
be one that the declaration does not admit.
-/

namespace MiniJava

/-- Whether a value of type `stored` can be converted to the type of the variable that takes it. -/
def ValueType.admits : ValueType → ValueType → Bool
  | .boolean, stored => stored = .boolean
  | .string, stored => stored = .string || stored = .null
  | .reference _, .reference _ | .reference _, .null => true
  | declared, stored => declared.isNumeric && stored.isNumeric

inductive WriteForm where
  | initializer | assignment
  | compound (op : BinaryOp)
  | step
deriving DecidableEq, Repr

/-- A write with the declared type of the variable that its target means and the static type of the
operand: the value on the right, and for a step the variable itself. -/
structure Write where
  form : WriteForm
  declared : Option ValueType
  operand : Option ValueType
deriving DecidableEq, Repr

namespace Write

/-- The static type of what is stored. -/
def stored? (write : Write) : Option ValueType :=
  match write.form with
  | .initializer | .assignment => write.operand
  | .compound op => (op.typing write.declared write.operand).type?
  | .step => write.operand.map fun type => type.promote .int

/-- A string is joined to what is no string, or a comparison is stored in what is no boolean, or
the variable is of the type `void`, which has no values. -/
def Escapes (write : Write) : Prop :=
  write.declared = some .void ∨
    ∃ op, write.form = .compound op ∧
      (op = .add ∧ write.operand = some .string ∧ write.declared ≠ some .string ∨
        op.isComparison = true ∧ write.declared ≠ some .boolean)

end Write

def Visit.write? (visit : Visit) : Option Write :=
  let declared (target : String) := (visit.table.lookup? target).map Symbol.type
  match visit.check with
  | .initializes type value _ =>
    some ⟨.initializer, some (.ofTypeName type), visit.table.typeOf value⟩
  | .stores target none value _ =>
    some ⟨.assignment, declared target, visit.table.typeOf value⟩
  | .stores target (some op) value _ =>
    some ⟨.compound op, declared target, visit.table.typeOf value⟩
  | .steps target _ _ => some ⟨.step, declared target, declared target⟩
  | _ => none

/-- The writes of a program, in the order in which the checker judges them. -/
def Program.writes (program : Program) : List Write := program.visits.filterMap Visit.write?

namespace ValueType

theorem isNumeric_promote (lhs rhs : ValueType) : (promote lhs rhs).isNumeric = true := by
  cases lhs <;> cases rhs <;> rfl

theorem admits_of_isNumeric {declared stored : ValueType} (h : declared.isNumeric = true) :
    declared.admits stored = stored.isNumeric := by
  cases declared <;> simp_all [admits, isNumeric, rank]

/-- What a variable accepts is admitted, if its type is a written one and has values. -/
theorem admits_of_accepts {declared stored : ValueType} (hnull : declared ≠ .null)
    (hvoid : declared ≠ .void) (h : declared.accepts stored = true) :
    declared.admits stored = true := by
  cases declared <;> cases stored <;>
    simp_all [accepts, admits, isNumeric, isReference, rank]

/-- The literals that narrow are integral numbers, and they narrow to numeric types. -/
theorem admits_of_narrows {declared stored : ValueType} {value : Expr} {table : SymbolTable}
    (hstored : table.typeOf value = some stored)
    (h : Inspection.narrows declared value = true) : declared.admits stored = true := by
  cases value with
  | literal value position =>
      simp only [Inspection.narrows, Bool.and_eq_true, Bool.or_eq_true, decide_eq_true_eq] at h
      obtain ⟨hintegral, hdeclared⟩ := h
      cases value with
      | number text =>
          obtain rfl : ValueType.int = stored := by
            simpa [SymbolTable.typeOf, ofLiteral, hintegral] using hstored
          obtain (rfl | rfl) | rfl := hdeclared <;> rfl
      | _ => cases hintegral
  | _ => cases h

end ValueType

namespace BinaryOp

/-- An operation gives a boolean if it compares or joins booleans, and otherwise a number. -/
theorem typingOf_cases {op : BinaryOp} {lhs rhs type : ValueType}
    (h : op.typingOf lhs rhs = .typed type) :
    op.isComparison = true ∧ type = .boolean ∨
      op.isComparison = false ∧ lhs = .boolean ∧ type = .boolean ∨
      op.isComparison = false ∧ lhs.isNumeric = true ∧ rhs.isNumeric = true ∧
        type.isNumeric = true := by
  have hbooleans (h : (lhs = .boolean && rhs = .boolean : Bool) = true) : lhs = .boolean := by
    simp_all
  have hnumbers {result : ValueType} (hresult : result.isNumeric = true)
      (h : Typing.guarded (lhs.isNumeric && rhs.isNumeric) result = .typed type) :
      lhs.isNumeric = true ∧ rhs.isNumeric = true ∧ type.isNumeric = true := by
    obtain ⟨hoperands, rfl⟩ := Typing.of_guarded h
    simp_all
  have hintegers {result : ValueType} (hresult : result.isNumeric = true)
      (h : Typing.guarded (lhs.isIntegral && rhs.isIntegral) result = .typed type) :
      lhs.isNumeric = true ∧ rhs.isNumeric = true ∧ type.isNumeric = true := by
    obtain ⟨hoperands, rfl⟩ := Typing.of_guarded h
    rw [Bool.and_eq_true] at hoperands
    exact ⟨ValueType.isNumeric_of_isIntegral hoperands.1,
      ValueType.isNumeric_of_isIntegral hoperands.2, hresult⟩
  have hpromote := ValueType.isNumeric_promote
  cases op with
  | or | and =>
      obtain ⟨hoperands, rfl⟩ := Typing.of_guarded h
      exact .inr (.inl ⟨rfl, hbooleans hoperands, rfl⟩)
  | eq | ne =>
      cases h
      exact .inl ⟨rfl, rfl⟩
  | lt | le | gt | ge =>
      obtain ⟨-, rfl⟩ := Typing.of_guarded h
      exact .inl ⟨rfl, rfl⟩
  | add | sub | mul | div | rem => exact .inr (.inr ⟨rfl, hnumbers (hpromote ..) h⟩)
  | shl | shr | ushr => exact .inr (.inr ⟨rfl, hintegers (hpromote ..) h⟩)
  | bitAnd | bitOr | bitXor =>
      simp only [typingOf] at h
      split at h
      · next hoperands =>
          cases h
          exact .inr (.inl ⟨rfl, hbooleans hoperands, rfl⟩)
      · exact .inr (.inr ⟨rfl, hintegers (hpromote ..) h⟩)

end BinaryOp

namespace Write

def Checked (write : Write) : Prop :=
  ∃ declared operand, write.declared = some declared ∧ write.operand = some operand ∧
    declared ≠ .null ∧
    match write.form with
    | .initializer | .assignment =>
      declared.accepts operand = true ∨ declared.admits operand = true
    | .compound op => op.typing (some declared) (some operand) ≠ .invalid
    | .step => operand = declared ∧ declared.isNumeric = true

theorem compound_admits_iff {op : BinaryOp} {declared operand type : ValueType}
    (hnull : declared ≠ .null) (h : op.typing (some declared) (some operand) = .typed type) :
    declared.admits type = true ↔
      ¬Escapes ⟨.compound op, some declared, some operand⟩ := by
  have hescapes : Escapes ⟨.compound op, some declared, some operand⟩ ↔ declared = .void ∨
      (op = .add ∧ operand = .string ∧ declared ≠ .string ∨
        op.isComparison = true ∧ declared ≠ .boolean) := by
    simp [Escapes]
  rw [hescapes]
  unfold BinaryOp.typing at h
  split at h
  · next hjoins =>
      cases h
      obtain ⟨rfl, hstring⟩ : op = .add ∧ (declared = .string ∨ operand = .string) := by
        simpa [BinaryOp.joinsStrings] using hjoins
      have hadmits : declared.admits .string = true ↔ declared = .string := by
        cases declared <;> simp [ValueType.admits, ValueType.isNumeric, ValueType.rank]
      rw [hadmits]
      by_cases hdeclared : declared = .string
      · simp [hdeclared, BinaryOp.isComparison]
      · simp [hdeclared, hstring.resolve_left hdeclared]
  · next hjoins =>
      have hoperand : op = .add → operand ≠ .string := by
        rintro rfl rfl
        exact hjoins (by simp [BinaryOp.joinsStrings])
      obtain ⟨hcompares, rfl⟩ | ⟨hcompares, rfl, rfl⟩ | ⟨hcompares, hleft, hright, htype⟩ :=
        BinaryOp.typingOf_cases h
      · have hadmits : declared.admits .boolean = true ↔ declared = .boolean := by
          cases declared <;> simp [ValueType.admits, ValueType.isNumeric, ValueType.rank]
        rw [hadmits]
        by_cases hdeclared : declared = .boolean
        · have hadd : op ≠ .add := by
            rintro rfl
            cases hcompares
          simp [hdeclared, hadd]
        · simp [hcompares, hdeclared]
      · have hadd : ¬(op = .add ∧ operand = .string) := fun h => hoperand h.1 h.2
        simp [ValueType.admits, hcompares, hadd]
      · have hvoid : declared ≠ .void := by
          rintro rfl
          cases hleft
        have hadd : ¬(op = .add ∧ operand = .string) := fun h => hoperand h.1 h.2
        rw [ValueType.admits_of_isNumeric hleft, htype]
        simp_all

theorem void_admits (stored : ValueType) : ValueType.void.admits stored = false := by
  cases stored <;> rfl

theorem Checked.admits_iff {write : Write} (h : write.Checked) :
    ∃ declared stored, write.declared = some declared ∧ write.stored? = some stored ∧
      (declared.admits stored = true ↔ ¬write.Escapes) := by
  obtain ⟨form, _, _⟩ := write
  obtain ⟨declared, operand, rfl, rfl, hnull, hform⟩ := h
  have hescapes (hplain : ∀ op, form ≠ .compound op) :
      Escapes ⟨form, some declared, some operand⟩ ↔ declared = .void := by
    simp [Escapes, hplain]
  cases form with
  | initializer | assignment =>
      refine ⟨declared, operand, rfl, rfl, ?_⟩
      rw [hescapes (by simp)]
      refine ⟨fun hadmits hvoid => ?_, fun hvoid => ?_⟩
      · rw [hvoid, void_admits] at hadmits
        cases hadmits
      · obtain haccepts | hadmits := hform
        · exact ValueType.admits_of_accepts hnull hvoid haccepts
        · exact hadmits
  | compound op =>
      obtain ⟨type, htype⟩ := BinaryOp.exists_typed hform
      exact ⟨declared, type, rfl, congrArg Typing.type? htype, compound_admits_iff hnull htype⟩
  | step =>
      obtain ⟨rfl, hnumeric⟩ := hform
      refine ⟨operand, _, rfl, rfl, ?_⟩
      rw [hescapes (by simp), ValueType.admits_of_isNumeric hnumeric, ValueType.isNumeric_promote]
      refine iff_of_true rfl ?_
      rintro rfl
      cases hnumeric

end Write

/-- A passed check knows both types of its write, and has compared them in its own way. -/
theorem Visit.write_checked {visit : Visit} (hpasses : visit.Passes)
    (htyped : ∀ e ∈ visit.check.operands, ∃ type, visit.table.typeOf e = some type)
    (hwritten : visit.table.Written) {write : Write} (hwrite : visit.write? = some write) :
    write.Checked := by
  obtain ⟨table, c⟩ := visit
  cases c with
  | initializes type value position =>
      obtain rfl := Option.some.inj hwrite
      obtain ⟨operand, hoperand⟩ := htyped value List.mem_cons_self
      refine ⟨_, operand, rfl, hoperand, ValueType.ofTypeName_ne_null type, ?_⟩
      obtain haccepts | hnarrows := Check.passes_initializes.mp hpasses operand hoperand
      · exact .inl haccepts
      · exact .inr (ValueType.admits_of_narrows hoperand hnarrows)
  | stores target op value position =>
      obtain ⟨declared, hdeclared⟩ := htyped (.name target position) List.mem_cons_self
      obtain ⟨operand, hoperand⟩ := htyped value (List.mem_cons_of_mem _ List.mem_cons_self)
      obtain ⟨symbol, hsymbol, rfl⟩ := Option.map_eq_some_iff.mp hdeclared
      have hnull := hwritten.lookup hsymbol
      cases op with
      | none =>
          obtain rfl := Option.some.inj hwrite
          refine ⟨symbol.type, operand, hdeclared, hoperand, hnull, ?_⟩
          obtain haccepts | hnarrows := (Check.passes_assign hsymbol).mp hpasses operand hoperand
          · exact .inl haccepts
          · exact .inr (ValueType.admits_of_narrows hoperand hnarrows)
      | some op =>
          obtain rfl := Option.some.inj hwrite
          have hvalid := (Check.passes_compound hsymbol).mp hpasses
          exact ⟨symbol.type, operand, hdeclared, hoperand, hnull, hoperand ▸ hvalid⟩
  | steps target op position =>
      obtain rfl := Option.some.inj hwrite
      obtain ⟨symbol, hsymbol, -, -, hnumeric⟩ := Check.passes_steps.mp hpasses
      have hdeclared := SymbolTable.exists_typeOf_name hsymbol
      exact ⟨symbol.type, symbol.type, hdeclared, hdeclared, hwritten.lookup hsymbol, rfl, hnumeric⟩
  | _ => cases hwrite

namespace Program

/-- In a clean program both types of every write are known, and the variable admits what is stored
in it exactly if the write is none of those that the checker lets escape. -/
theorem stores_admitted_iff (program : Program) (h : program.diagnostics = []) :
    ∀ write ∈ program.writes, ∃ declared stored,
      write.declared = some declared ∧ write.stored? = some stored ∧
        (declared.admits stored = true ↔ ¬write.Escapes) := by
  intro write hwrite
  obtain ⟨visit, hvisit, hform⟩ := List.mem_filterMap.mp hwrite
  have hchecked := Visit.write_checked ((clean_iff program).mp h visit hvisit)
    (operands_typed h visit hvisit) (program.visits_written visit hvisit) hform
  exact hchecked.admits_iff

/-- A number, a string and a boolean are written in every form that they admit. -/
theorem stores_admitted_forms :
    ∃ program, ofSource ("int x = 1; x = 2; x += 3; x++; String s = null; s = \"a\"; s += x; " ++
        "boolean b = x < 3;") = .ok program ∧
      program.writes.length = 8 ∧ ∀ write ∈ program.writes, ∃ declared stored,
        write.declared = some declared ∧ write.stored? = some stored ∧
          (declared.admits stored = true ↔ ¬write.Escapes) := by
  obtain ⟨program, hsource, hclean, hlength⟩ := exists_program
    ("int x = 1; x = 2; x += 3; x++; String s = null; s = \"a\"; s += x; " ++ "boolean b = x < 3;")
    (fun program => program.diagnostics = [] ∧ program.writes.length = 8) (by decide +kernel)
  exact ⟨program, hsource, hlength, stores_admitted_iff program hclean⟩

/-- The string is stored in a boolean variable. -/
theorem string_joined_to_boolean :
    ∃ program, ofSource "boolean b = true; b += \"s\";" = .ok program ∧
      program.diagnostics = [] ∧
      ∃ write ∈ program.writes, write.declared = some .boolean ∧ write.stored? = some .string ∧
        ValueType.boolean.admits .string = false :=
  exists_program _ _ (by decide +kernel)

end Program

end MiniJava
