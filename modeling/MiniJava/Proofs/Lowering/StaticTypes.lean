import MiniJava.Proofs.Lowering.Operations

/-!
# Static types in code

The checker types an expression while it goes on with a table that it marks; code is emitted with
types that are read off a table that stays as it is. Where both tables declare every name with the
same type, the types are the same, and so are the choices that they make in the code: a floor
division for integers, and text for the sides of a concatenation that are no strings.
-/

namespace MiniJava

namespace Inspection

/-- The types that the checker finds for two operands, one behind the other. -/
def operandTypes (inspection : Inspection) (lhs rhs : Expr) :
    Option ValueType × Option ValueType :=
  let left := inspection.expr lhs
  (left.type, (left.after.expr rhs).type)

/-- The types that the checker finds for the target of a compound assignment and for its value. -/
def updateTypes (inspection : Inspection) (target : String) (op : BinaryOp) (value : Expr)
    (position : Position) : Option ValueType × Option ValueType :=
  let begun := inspection.check (.begins target (some op) value position)
  ((inspection.expr (.assign target (some op) value position)).type, (begun.expr value).type)

theorem operandTypes_eq (inspection : Inspection) (lhs rhs : Expr) :
    inspection.operandTypes lhs rhs =
      (inspection.symbols.typeOf lhs, inspection.symbols.typeOf rhs) := by
  simp only [operandTypes, expr_type, typeOf_behind]

theorem updateTypes_eq (inspection : Inspection) (target : String) (op : BinaryOp) (value : Expr)
    (position : Position) : inspection.updateTypes target op value position =
      (inspection.symbols.typeOf (.name target position), inspection.symbols.typeOf value) := by
  simp only [updateTypes, expr_type, check_begins]
  rfl

end Inspection

namespace Lowering

variable {place : Place} {table : SymbolTable}

/-- The operator is found for every pair of types, unless Python has none, and it is the floor
division only for a division of integers. -/
theorem exists_operator_of_ne_ushr {op : BinaryOp} (h : op ≠ .ushr) (lhs rhs : Option ValueType) :
    ∃ operator, operator? lhs rhs op = some operator ∧
      (operator = .floorDiv ↔ op = .div ∧ dividesIntegers lhs rhs = true) := by
  cases op with
  | ushr => exact absurd rfl h
  | div =>
      refine ⟨_, rfl, ?_⟩
      cases dividesIntegers lhs rhs <;> simp
  | _ => exact ⟨_, rfl, by simp⟩

theorem expr_binary {op : BinaryOp} {operator : Target.Operator} {lhs rhs : Expr}
    {left right : Target.Expr}
    (hoperator : operator? (table.typeOf lhs) (table.typeOf rhs) op = some operator)
    (hleft : expr place table lhs = .ok left) (hright : expr place table rhs = .ok right) :
    expr place table (.binary op lhs rhs) =
      .ok (binary op operator (table.typeOf lhs) (table.typeOf rhs) left right) := by
  rw [expr, hoperator, hleft, hright]
  rfl

theorem effect_update {op : BinaryOp} (h : op ≠ .ushr) {value : Expr} {source : Target.Expr}
    (hsource : expr place table value = .ok source) (target : String) (position : Position) :
    (effect place (.assign target (some op) value position)).outcome table =
      (.ok [.update (place.reference table target)
        (updateOp (table.typeOf (.name target position)) (table.typeOf value) op) source],
        table) := by
  have hvalue : (Lowering.value place value).outcome table = (.ok source, table) := by
    rw [Lowering.value]
    exact congrArg (·, table) hsource
  have heffect : effect place (.assign target (some op) value position) = do
      let targetType ← typeOf (.name target position)
      let sourceType ← typeOf value
      let source ← Lowering.value place value
      return [.update (← reference place target) (updateOp targetType sourceType op) source] := by
    cases op with
    | ushr => exact absurd rfl h
    | _ => rfl
  have hread (e : Expr) : (typeOf e).outcome table = (.ok (table.typeOf e), table) := rfl
  have hreference :
      (reference place target).outcome table = (.ok (place.reference table target), table) := rfl
  rw [heffect, outcome_bind_of_ok (hread _), outcome_bind_of_ok (hread _),
    outcome_bind_of_ok hvalue, outcome_bind_of_ok hreference]
  rfl

/-- Types are those that the checker finds, whatever it reports and marks on its way, if the tables
declare names alike. So the operator of a division and the sides of a concatenation are chosen by
the checker's types, and so is the operator of a compound assignment. -/
theorem types_follow_checker {inspection : Inspection}
    (h : ∀ name, table.declaredType? name = inspection.symbols.declaredType? name) :
    (∀ e, table.typeOf e = (inspection.expr e).type ∧
      ∀ name, table.declaredType? name = (inspection.expr e).after.symbols.declaredType? name) ∧
    (∀ place op lhs rhs left right, op ≠ .ushr →
      expr place table lhs = .ok left → expr place table rhs = .ok right →
      let types := inspection.operandTypes lhs rhs
      ∃ operator, operator? types.1 types.2 op = some operator ∧
        (operator = .floorDiv ↔ op = .div ∧ dividesIntegers types.1 types.2 = true) ∧
        expr place table (.binary op lhs rhs) = .ok (.binary operator
          (operandText (op.joinsStrings types.1 types.2) types.1 left)
          (operandText (op.joinsStrings types.1 types.2) types.2 right))) ∧
    (∀ place target op value position source, op ≠ .ushr →
      expr place table value = .ok source →
      let types := inspection.updateTypes target op value position
      (effect place (.assign target (some op) value position)).outcome table =
        (.ok [.update (place.reference table target) (updateOp types.1 types.2 op) source],
          table)) := by
  have htypes (e : Expr) : table.typeOf e = inspection.symbols.typeOf e :=
    SymbolTable.typeOf_congr fun name _ => h name
  refine ⟨fun e => ⟨?_, fun name => ?_⟩, fun place op lhs rhs left right hop hleft hright => ?_,
    fun place target op value position source hop hsource => ?_⟩
  · rw [Inspection.expr_type, htypes]
  · rw [h, SymbolTable.declaredType?_of_bare (Inspection.expr_bare e inspection)]
  · obtain ⟨operator, hoperator, hfloor⟩ :=
      exists_operator_of_ne_ushr hop (table.typeOf lhs) (table.typeOf rhs)
    simp only [Inspection.operandTypes_eq, ← htypes]
    exact ⟨operator, hoperator, hfloor,
      (expr_binary hoperator hleft hright).trans (congrArg _ (binary_eq ..))⟩
  · simp only [Inspection.updateTypes_eq, ← htypes]
    exact effect_update hop hsource target position

/-- In `(x = 2.5) / x` the checker reports its inner `x` and marks it, while the `x` of the code is
marked from the start. Both tables make it a division of integers. -/
theorem types_follow_checker_shadowed :
    let symbol (type : ValueType) (initialized constant : Bool) : Symbol :=
      ⟨type, ⟨1, 1⟩, initialized, constant⟩
    let inspection : Inspection := ⟨⟨[("x", symbol .int false true)],
      [[("s", symbol .string false false), ("x", symbol .boolean true false)]]⟩, []⟩
    let table : SymbolTable :=
      ⟨[("s", symbol .string true false), ("x", symbol .int true false)], []⟩
    let x : Expr := .name "x" ⟨2, 1⟩
    let assigned : Expr := .assign "x" none (.literal (.number "2.5") ⟨2, 5⟩) ⟨2, 1⟩
    let two : Expr := .literal (.number "2") ⟨2, 9⟩
    (inspection.expr (.binary .div assigned x)).type = some .int ∧
    (inspection.expr assigned).after ≠ inspection ∧
    table.typeOf (.binary .div assigned x) =
      (inspection.expr (.binary .div assigned x)).type ∧
    (∃ operator, operator? (some .int) (some .int) .div = some operator ∧
      (operator = .floorDiv ↔ BinaryOp.div = .div ∧
        dividesIntegers (some .int) (some .int) = true) ∧
      expr .outside table (.binary .div x two) =
        .ok (.binary operator (.name "x") (.number "2"))) ∧
    (effect .outside (.assign "s" (some .add) x ⟨2, 1⟩)).outcome table =
      (.ok [.update (.name "s") (.applying .add) (.name "x")], table) := by
  intro symbol inspection table x assigned two
  have hsame (name : String) :
      table.declaredType? name = inspection.symbols.declaredType? name := by
    by_cases hs : name = "s"
    · subst hs
      rfl
    by_cases hx : name = "x"
    · subst hx
      rfl
    have hs := beq_eq_false_iff_ne.mpr hs
    have hx := beq_eq_false_iff_ne.mpr hx
    simp [table, inspection, SymbolTable.declaredType?, SymbolTable.lookup?, SymbolTable.resolve?,
      SymbolTable.scopes, SymbolTable.resolveIn, List.lookup_cons, hs, hx]
  obtain ⟨htypes, hoperators, hupdates⟩ := types_follow_checker hsame
  exact ⟨rfl, by decide, (htypes _).1,
    hoperators .outside .div x two (.name "x") (.number "2") (by decide) rfl rfl,
    hupdates .outside "s" .add x ⟨2, 1⟩ (.name "x") (by decide) rfl⟩

end Lowering

end MiniJava
