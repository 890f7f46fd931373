import MiniJava.Proofs.Diagnostics.Stores
import MiniJava.Proofs.Lowering.Judged

/-!
# Kinds of operands in clean programs

In a clean program the two operands of an operation have types that fit, and those types tell what
the operands hold in Python: numbers for the numeric types, strings for `String`. Two things break
this. A `char` is a number to the checker but is written as a string; and a compound assignment does
not turn its value into text, as `+` does, so that it fails where a string meets anything else.
-/

namespace MiniJava

open Target (Kind Application)

/-- What a variable holds in emitted code. It may be either for a `char`, and neither for the other
types. -/
def ValueType.kind? : ValueType → Option Kind
  | .string => some .text
  | .byte | .short | .int | .long | .float | .double => some .number
  | .char | .boolean | .null | .void | .reference _ => none

theorem ValueType.kind?_of_isNumeric {type : ValueType} (h : type.isNumeric = true)
    (hchar : type ≠ .char) : type.kind? = some .number := by
  cases type <;> simp_all [kind?, isNumeric, rank]

theorem ValueType.kind?_eq_text {type : ValueType} : type.kind? = some .text ↔ type = .string := by
  cases type <;> simp [kind?]

namespace SymbolTable

variable (table : SymbolTable)

/-- What names hold by their declarations. -/
def kinds (name : String) : Option Kind :=
  (table.lookup? name).bind fun symbol => symbol.type.kind?

/-- Whether an expression has no `char` that it computes with; one that is turned into text or
compared to give a truth value is none. -/
def charless : Expr → Bool
  | .literal (.char _) _ => false
  | .literal _ _ => true
  | .name name position => table.typeOf (.name name position) ≠ some .char
  | .binary op lhs rhs =>
    op.joinsStrings (table.typeOf lhs) (table.typeOf rhs) || op.isComparison || op.isLogical ||
      (charless lhs && charless rhs)
  | .unary op operand => op = .not || charless operand
  | .assign _ _ _ _ | .step _ _ _ _ => true

theorem kinds_of_typeOf {table : SymbolTable} {name : String} {position : Position}
    {type : ValueType} (h : table.typeOf (.name name position) = some type) :
    table.kinds name = type.kind? := by
  obtain ⟨symbol, hsymbol, rfl⟩ := Option.map_eq_some_iff.mp h
  rw [kinds, hsymbol]
  rfl

end SymbolTable

theorem Typing.exists_of_type? {typing : Typing} {type : ValueType}
    (h : typing.type? = some type) : typing = .typed type := by
  cases typing <;> simp_all [Typing.type?]

namespace BinaryOp

variable {op : BinaryOp} {lhs rhs : Option ValueType} {type : ValueType}

theorem eq_add_of_joinsStrings (h : op.joinsStrings lhs rhs = true) :
    op = .add ∧ (lhs = some .string ∨ rhs = some .string) := by
  simpa [joinsStrings] using h

theorem typing_of_joinsStrings (h : op.joinsStrings lhs rhs = true) :
    op.typing lhs rhs = .typed .string := if_pos h

/-- Only an operation that joins strings gives one. -/
theorem typing_eq_string (h : op.typing lhs rhs = .typed .string) :
    op.joinsStrings lhs rhs = true := by
  unfold typing at h
  split at h
  · next hjoins => exact hjoins
  · split at h
    · obtain ⟨-, htype⟩ | ⟨-, -, htype⟩ | ⟨-, -, -, htype⟩ := typingOf_cases h <;> cases htype
    · split at h <;> cases h

/-- An operation that gives a number works on numbers. -/
theorem exists_of_isNumeric (h : op.typing lhs rhs = .typed type) (htype : type.isNumeric = true) :
    op.joinsStrings lhs rhs = false ∧ op.isComparison = false ∧ op.isLogical = false ∧
      ∃ left right, lhs = some left ∧ rhs = some right ∧ left.isNumeric = true ∧
        right.isNumeric = true := by
  unfold typing at h
  split at h
  · cases h
    cases htype
  · next hjoins =>
      split at h
      · next left right =>
          obtain ⟨-, rfl⟩ | ⟨-, -, rfl⟩ | ⟨hcompares, hleft, hright, -⟩ := typingOf_cases h
          · cases htype
          · cases htype
          · have hlogical : op.isLogical = false := by
              cases op with
              | or | and =>
                  obtain ⟨-, rfl⟩ := Typing.of_guarded h
                  cases htype
              | _ => rfl
            exact ⟨by simpa using hjoins, hcompares, hlogical, left, right, rfl, rfl, hleft, hright⟩
      · split at h <;> cases h
        cases htype

end BinaryOp

theorem UnaryOp.exists_of_isNumeric {op : UnaryOp} {operand : Option ValueType} {type : ValueType}
    (h : op.typing operand = .typed type) (htype : type.isNumeric = true) :
    op ≠ .not ∧ ∃ inner, operand = some inner ∧ inner.isNumeric = true := by
  cases operand with
  | none =>
      cases op <;> cases h
      cases htype
  | some inner =>
      cases op with
      | not =>
          obtain ⟨-, rfl⟩ := Typing.of_guarded h
          cases htype
      | neg | plus => exact ⟨by simp, inner, rfl, (Typing.of_guarded h).1⟩
      | bitNot =>
          exact ⟨by simp, inner, rfl, ValueType.isNumeric_of_isIntegral (Typing.of_guarded h).1⟩

namespace Lowering

variable {place : Place} {table : SymbolTable}

theorem reference_kind (name : String) :
    (place.reference table name).kind? table.kinds = table.kinds name := by
  unfold Place.reference
  split <;> rfl

/-- A side of a concatenation is text, if one that is a string is. -/
theorem asText_kind {type : Option ValueType} {side : Target.Expr}
    (h : type = some .string → side.kind? table.kinds = some .text) :
    (asText type side).kind? table.kinds = some .text := by
  unfold asText
  split
  · next htype => exact h htype
  · rfl

/-- A string is emitted as a string. -/
theorem kind_of_string {e : Expr} {out : Target.Expr} (h : expr place table e = .ok out)
    (htype : table.typeOf e = some .string) : out.kind? table.kinds = some .text := by
  induction e generalizing out with
  | literal value position =>
      cases h
      cases value with
      | string text => rfl
      | number text =>
          simp only [SymbolTable.typeOf, ValueType.ofLiteral] at htype
          split at htype <;> cases htype
      | _ => cases htype
  | name word position =>
      cases h
      rw [reference_kind, SymbolTable.kinds_of_typeOf htype]
      rfl
  | binary op lhs rhs ihl ihr =>
      obtain ⟨operator, left, right, hoperator, hleft, hright, rfl⟩ := exists_of_binary h
      have hjoins := BinaryOp.typing_eq_string (Typing.exists_of_type? htype)
      obtain ⟨rfl, -⟩ := BinaryOp.eq_add_of_joinsStrings hjoins
      cases hoperator
      rw [binary, if_pos hjoins, Target.Expr.kind?, asText_kind (ihl hleft), asText_kind (ihr hright)]
      rfl
  | unary op operand ih =>
      have htyped := Typing.exists_of_type? htype
      cases hoperand : table.typeOf operand with
      | none => rw [hoperand] at htyped; cases op <;> cases htyped
      | some type =>
          rw [hoperand] at htyped
          cases op <;> cases type <;> cases htyped
  | assign target op value position ih => cases h
  | step target op form position => cases h

theorem operator_kind {op : BinaryOp} {operator : Target.Operator} {lhs rhs : Option ValueType}
    (h : operator? lhs rhs op = some operator) (hcompares : op.isComparison = false)
    (hlogical : op.isLogical = false) :
    operator.kind? (some .number) (some .number) = some .number := by
  cases op with
  | or | and => cases hlogical
  | eq | ne | lt | le | gt | ge => cases hcompares
  | ushr => cases h
  | div =>
      obtain rfl := Option.some.inj h
      split <;> rfl
  | _ =>
      obtain rfl := Option.some.inj h
      rfl

/-- A number that is not computed from a `char` is emitted as a number. -/
theorem kind_of_number {e : Expr} {out : Target.Expr} {type : ValueType}
    (h : expr place table e = .ok out) (hcharless : table.charless e = true)
    (htype : table.typeOf e = some type) (hnumeric : type.isNumeric = true) :
    out.kind? table.kinds = some .number := by
  induction e generalizing out type with
  | literal value position =>
      cases h
      cases htype
      cases value with
      | number text => rfl
      | char text => cases hcharless
      | _ => cases hnumeric
  | name word position =>
      cases h
      have hchar : type ≠ .char := by
        rintro rfl
        simp [SymbolTable.charless, htype] at hcharless
      rw [reference_kind, SymbolTable.kinds_of_typeOf htype,
        ValueType.kind?_of_isNumeric hnumeric hchar]
  | binary op lhs rhs ihl ihr =>
      obtain ⟨operator, left, right, hoperator, hleft, hright, rfl⟩ := exists_of_binary h
      obtain ⟨hjoins, hcompares, hlogical, lhsType, rhsType, hlhs, hrhs, hleftNumeric,
        hrightNumeric⟩ :=
        BinaryOp.exists_of_isNumeric (Typing.exists_of_type? htype) hnumeric
      simp only [SymbolTable.charless, hjoins, hcompares, hlogical, Bool.false_or,
        Bool.and_eq_true] at hcharless
      have hl := ihl hleft hcharless.1 hlhs hleftNumeric
      have hr := ihr hright hcharless.2 hrhs hrightNumeric
      rw [binary, if_neg (by simp [hjoins]), Target.Expr.kind?, hl, hr]
      exact operator_kind hoperator hcompares hlogical
  | unary op operand ih =>
      obtain ⟨inner, hinner, rfl⟩ := exists_of_unary h
      obtain ⟨hnot, operandType, hoperand, hinnerNumeric⟩ :=
        UnaryOp.exists_of_isNumeric (Typing.exists_of_type? htype) hnumeric
      simp only [SymbolTable.charless, hnot, decide_false, Bool.false_or] at hcharless
      have hnumber := ih hinner hcharless hoperand hinnerNumeric
      cases op with
      | not => exact absurd rfl hnot
      | _ => rw [unary, Target.Expr.kind?, if_pos hnumber]
  | assign target op value position ih => cases h
  | step target op form position => cases h

theorem add_of_kind_text {operator : Target.Operator} {lhs rhs : Option Kind}
    (h : operator.kind? lhs rhs = some .text) :
    operator = .add ∧ lhs = some .text ∧ rhs = some .text := by
  cases operator with
  | add =>
      simp only [Target.Operator.kind?] at h
      split at h
      · next hsame => exact ⟨rfl, h, hsame ▸ h⟩
      · cases h
  | or | and | eq | ne | lt | le | gt | ge => cases h
  | _ =>
      simp only [Target.Operator.kind?] at h
      split at h <;> cases h

/-- Only strings are emitted as strings, where no `char` is computed with. -/
theorem string_of_kind {e : Expr} {out : Target.Expr} {type : ValueType}
    (h : expr place table e = .ok out) (hcharless : table.charless e = true)
    (htype : table.typeOf e = some type) (hkind : out.kind? table.kinds = some .text) :
    type = .string := by
  induction e generalizing out type with
  | literal value position =>
      cases h
      cases htype
      cases value with
      | string text => rfl
      | char text => cases hcharless
      | _ => cases hkind
  | name word position =>
      cases h
      rw [reference_kind, SymbolTable.kinds_of_typeOf htype] at hkind
      exact ValueType.kind?_eq_text.mp hkind
  | binary op lhs rhs ihl ihr =>
      obtain ⟨operator, left, right, hoperator, hleft, hright, rfl⟩ := exists_of_binary h
      have htyped := Typing.exists_of_type? htype
      cases hjoins : op.joinsStrings (table.typeOf lhs) (table.typeOf rhs) with
      | true =>
          exact Typing.typed.inj (htyped.symm.trans (BinaryOp.typing_of_joinsStrings hjoins))
      | false =>
          rw [binary, if_neg (by simp [hjoins]), Target.Expr.kind?] at hkind
          obtain ⟨rfl, hl, -⟩ := add_of_kind_text hkind
          obtain rfl : op = .add := by
            cases op with
            | div =>
                have hdivides := Option.some.inj hoperator
                split at hdivides <;> cases hdivides
            | add => rfl
            | _ => cases hoperator
          simp only [SymbolTable.charless, hjoins, BinaryOp.isComparison, BinaryOp.isLogical,
            Bool.false_or, Bool.and_eq_true] at hcharless
          cases hlhs : table.typeOf lhs with
          | none =>
              rw [hlhs] at htyped hjoins
              simp [BinaryOp.typing, hjoins, BinaryOp.isComparison, BinaryOp.isLogical] at htyped
          | some lhsType =>
              obtain rfl := ihl hleft hcharless.1 hlhs hl
              rw [hlhs] at hjoins
              cases hjoins
  | unary op operand ih =>
      obtain ⟨inner, -, rfl⟩ := exists_of_unary h
      cases op with
      | not => cases hkind
      | _ =>
          simp only [unary, Target.Expr.kind?] at hkind
          split at hkind <;> cases hkind
  | assign target op value position ih => cases h
  | step target op form position => cases h

/-- An operator that is written as one that computes has numbers on both sides, if it joins no
strings. -/
theorem numbers_of_computes {op : BinaryOp} {operator : Target.Operator} {lhs rhs : ValueType}
    (hoperator : operator? (some lhs) (some rhs) op = some operator)
    (hcomputes : operator.computes = true)
    (hjoins : op.joinsStrings (some lhs) (some rhs) = false)
    (hvalid : op.typing (some lhs) (some rhs) ≠ .invalid) :
    lhs.isNumeric = true ∧ rhs.isNumeric = true := by
  obtain ⟨type, htype⟩ := BinaryOp.exists_typed hvalid
  rw [BinaryOp.typing, if_neg (by simp [hjoins])] at htype
  rw [← Bool.and_eq_true]
  cases op with
  | lt | le | gt | ge | add | sub | mul | div | rem => exact (Typing.of_guarded htype).1
  | ushr => cases hoperator
  | _ =>
      cases hoperator
      cases hcomputes

theorem update_numbers {op : BinaryOp} {operator : Target.Operator} {target source : ValueType}
    (hoperator : (updateOp (some target) (some source) op).operator? = some operator)
    (hjoins : op.joinsStrings (some target) (some source) = false)
    (hvalid : op.typing (some target) (some source) ≠ .invalid) :
    target.isNumeric = true ∧ source.isNumeric = true := by
  obtain ⟨type, htype⟩ := BinaryOp.exists_typed hvalid
  rw [BinaryOp.typing, if_neg (by simp [hjoins])] at htype
  rw [← Bool.and_eq_true]
  cases op with
  | add | sub | mul | div | rem => exact (Typing.of_guarded htype).1
  | _ => cases hoperator

end Lowering

namespace Visit

/-- Whether no `char` is computed with in what a check judges. -/
def charless (visit : Visit) : Bool :=
  match visit.check with
  | .applies op lhs rhs =>
    op.joinsStrings (visit.table.typeOf lhs) (visit.table.typeOf rhs) ||
      (visit.table.charless lhs && visit.table.charless rhs)
  | .stores target _ value position =>
    visit.table.charless (.name target position) && visit.table.charless value
  | .steps target _ position => visit.table.charless (.name target position)
  | _ => true

/-- A compound `+=` of which exactly one side is a string. -/
def Mixes (visit : Visit) : Prop :=
  ∃ target value position, visit.check = .stores target (some .add) value position ∧
    ¬(visit.table.typeOf (.name target position) = some .string ↔
      visit.table.typeOf value = some .string)

end Visit

namespace Lowering

open Visit (Mixes)

variable {place : Place} {visit : Visit} {operation : Application}

/-- Two numbers, for which an expression has no `char`. -/
theorem sorted_of_numbers {table : SymbolTable} {lhs rhs : Expr} {left right : Target.Expr}
    {lhsType rhsType : ValueType} {operator : Target.Operator}
    (hleft : expr place table lhs = .ok left) (hright : expr place table rhs = .ok right)
    (hlhs : table.typeOf lhs = some lhsType) (hrhs : table.typeOf rhs = some rhsType)
    (hnumbers : lhsType.isNumeric = true ∧ rhsType.isNumeric = true)
    (hcharless : (table.charless lhs && table.charless rhs) = true) :
    Application.Sorted table.kinds ⟨operator, left, right⟩ := by
  rw [Bool.and_eq_true] at hcharless
  exact .inl ⟨kind_of_number hleft hcharless.1 hlhs hnumbers.1,
    kind_of_number hright hcharless.2 hrhs hnumbers.2⟩

theorem sorted_of_strings {table : SymbolTable} {lhs rhs : Expr} {left right : Target.Expr}
    (hleft : expr place table lhs = .ok left) (hright : expr place table rhs = .ok right)
    (hlhs : table.typeOf lhs = some .string) (hrhs : table.typeOf rhs = some .string) :
    Application.Sorted table.kinds ⟨.add, left, right⟩ :=
  .inr ⟨rfl, kind_of_string hleft hlhs, kind_of_string hright hrhs⟩

/-- If exactly one side of an operation is a string, its operands do not fit. -/
theorem not_sorted_of_mixed {table : SymbolTable} {lhs rhs : Expr} {left right : Target.Expr}
    {lhsType rhsType : ValueType} {operator : Target.Operator}
    (hleft : expr place table lhs = .ok left) (hright : expr place table rhs = .ok right)
    (hlhs : table.typeOf lhs = some lhsType) (hrhs : table.typeOf rhs = some rhsType)
    (hcharless : (table.charless lhs && table.charless rhs) = true)
    (hmixed : ¬(lhsType = .string ↔ rhsType = .string)) :
    ¬Application.Sorted table.kinds ⟨operator, left, right⟩ := by
  rw [Bool.and_eq_true] at hcharless
  rintro (⟨hl, hr⟩ | ⟨-, hl, hr⟩)
  · refine hmixed (iff_of_false ?_ ?_)
    · rintro rfl
      rw [kind_of_string hleft hlhs] at hl
      cases hl
    · rintro rfl
      rw [kind_of_string hright hrhs] at hr
      cases hr
  · exact hmixed (iff_of_true (string_of_kind hleft hcharless.1 hlhs hl)
      (string_of_kind hright hcharless.2 hrhs hr))

/-- The operands of an operation fit, unless it is a compound assignment with one string. -/
theorem Emits.sorted_iff (hemits : Emits place visit.table visit.check operation)
    (hpasses : visit.Passes)
    (htyped : ∀ e ∈ visit.check.operands, ∃ type, visit.table.typeOf e = some type)
    (hcharless : visit.charless = true) :
    operation.Sorted visit.table.kinds ↔ ¬visit.Mixes := by
  obtain ⟨table, c⟩ := visit
  cases hemits with
  | @operation op lhs rhs operator left right hoperator hcomputes hleft hright =>
      refine iff_of_true ?_ (by rintro ⟨_, _, _, h, -⟩; cases h)
      obtain ⟨lhsType, hlhs⟩ := htyped lhs List.mem_cons_self
      obtain ⟨rhsType, hrhs⟩ := htyped rhs (List.mem_cons_of_mem _ List.mem_cons_self)
      have hvalid := Check.passes_applies.mp hpasses
      simp only [Visit.charless] at hcharless
      cases hjoins : op.joinsStrings (table.typeOf lhs) (table.typeOf rhs) with
      | true =>
          obtain ⟨rfl, -⟩ := BinaryOp.eq_add_of_joinsStrings hjoins
          cases hoperator
          exact .inr ⟨rfl, asText_kind (kind_of_string hleft), asText_kind (kind_of_string hright)⟩
      | false =>
          rw [hjoins, Bool.false_or] at hcharless
          rw [hlhs, hrhs] at hoperator hjoins hvalid
          exact sorted_of_numbers hleft hright hlhs hrhs
            (numbers_of_computes hoperator hcomputes hjoins hvalid) hcharless
  | @bound op counter stop last operator hop hoperator hstop =>
      refine iff_of_true ?_ (by rintro ⟨_, _, _, h, -⟩; cases h)
      obtain ⟨lhsType, hlhs⟩ := htyped counter List.mem_cons_self
      obtain ⟨rhsType, hrhs⟩ := htyped stop (List.mem_cons_of_mem _ List.mem_cons_self)
      have hvalid := Check.passes_applies.mp hpasses
      rw [hlhs, hrhs] at hvalid
      have hnumbers : lhsType.isNumeric = true ∧ rhsType.isNumeric = true := by
        rw [← Bool.and_eq_true]
        obtain ⟨type, htype⟩ := BinaryOp.exists_typed hvalid
        obtain rfl | rfl := hop <;> exact (Typing.of_guarded htype).1
      have hstopCharless : table.charless stop = true := by
        obtain rfl | rfl := hop <;> exact (Bool.and_eq_true_iff.mp hcharless).2
      exact .inl ⟨kind_of_number hstop hstopCharless hrhs hnumbers.2, rfl⟩
  | @update target op value position operator source hoperator hsource =>
      obtain ⟨targetType, htarget⟩ := htyped (.name target position) List.mem_cons_self
      obtain ⟨valueType, hvalue⟩ := htyped value (List.mem_cons_of_mem _ List.mem_cons_self)
      obtain ⟨symbol, hsymbol, rfl⟩ := Option.map_eq_some_iff.mp htarget
      have hvalid := (Check.passes_compound hsymbol).mp hpasses
      have hreference : expr place table (.name target position) =
          .ok (place.reference table target) := rfl
      rw [hvalue] at hvalid
      have hmixes : Visit.Mixes ⟨table, .stores target (some op) value position⟩ ↔
          op = .add ∧ ¬(symbol.type = .string ↔ valueType = .string) := by
        simp [Visit.Mixes, htarget, hvalue]
      rw [hmixes]
      by_cases hmixed : op = .add ∧ ¬(symbol.type = .string ↔ valueType = .string)
      · exact iff_of_false
          (not_sorted_of_mixed hreference hsource htarget hvalue hcharless hmixed.2)
          (not_not_intro hmixed)
      · refine iff_of_true ?_ hmixed
        cases hjoins : op.joinsStrings (some symbol.type) (some valueType) with
        | false =>
            rw [htarget, hvalue] at hoperator
            exact sorted_of_numbers hreference hsource htarget hvalue
              (update_numbers hoperator hjoins hvalid) hcharless
        | true =>
            obtain ⟨rfl, hstring⟩ := BinaryOp.eq_add_of_joinsStrings hjoins
            cases hoperator
            have hboth : symbol.type = .string ∧ valueType = .string := by
              simp only [true_and, not_not] at hmixed
              simp only [Option.some.injEq, hmixed, or_self] at hstring
              exact ⟨hmixed.mpr hstring, hstring⟩
            exact sorted_of_strings hreference hsource (htarget.trans (congrArg some hboth.1))
              (hvalue.trans (congrArg some hboth.2))
  | step target op position =>
      refine iff_of_true ?_ (by rintro ⟨_, _, _, h, -⟩; cases h)
      obtain ⟨symbol, hsymbol, -, -, hnumeric⟩ := Check.passes_steps.mp hpasses
      have htarget : table.typeOf (.name target position) = some symbol.type :=
        SymbolTable.exists_typeOf_name hsymbol
      exact .inl ⟨kind_of_number rfl hcharless htarget hnumeric, rfl⟩

end Lowering

namespace Program

/-- In a clean and tidy program every operation of the emitted code comes from one that the checker
judges, and unless a `char` is computed with there, its operands are two numbers, or two strings
that `+` joins, except where a compound `+=` has exactly one string. -/
theorem operands_sorted_iff (program : Program) (m : Target.Module) (h : program.toModule = .ok m)
    (hclean : program.diagnostics = []) (htidy : program.tidy = true) :
    ∀ operation ∈ m.applications, ∃ place, ∃ visit ∈ program.visits,
      Lowering.Emits place visit.table visit.check operation ∧
        (visit.charless = true → (operation.Sorted visit.table.kinds ↔ ¬visit.Mixes)) := by
  intro operation hoperation
  obtain ⟨place, visit, hvisit, hemits⟩ := applications_judged h htidy operation hoperation
  exact ⟨place, visit, hvisit, hemits, hemits.sorted_iff ((clean_iff program).mp hclean visit hvisit)
    (operands_typed hclean visit hvisit)⟩

/-- Strings are joined, numbers are subtracted, and a bound that is reached is moved on. -/
theorem operands_sorted_loop :
    ∃ program m, ofSource ("class A \x7b int x; int n; void m() \x7b " ++
        "for (int i = 0; i <= n; i++) \x7b String s = \"n\"; s += s + i; x -= i * 2; \x7d \x7d \x7d") =
        .ok program ∧
      program.toModule = .ok m ∧
      m.applications.map Application.op = [.add, .add, .add, .mul, .sub] ∧
      ∀ operation ∈ m.applications, ∃ place, ∃ visit ∈ program.visits,
        Lowering.Emits place visit.table visit.check operation ∧
          (visit.charless = true → (operation.Sorted visit.table.kinds ↔ ¬visit.Mixes)) :=
  exists_module (fun program m => program.diagnostics = [] ∧ program.tidy = true ∧
      m.applications.map Application.op = [.add, .add, .add, .mul, .sub]) (by decide +kernel)
    fun program m hmodule h =>
      ⟨h.2.2, operands_sorted_iff program m hmodule h.1 h.2.1⟩

/-- The number is not turned into text, as it is in `s + 1`. -/
theorem number_joined_by_update :
    ∃ program m, ofSource "String s = \"a\"; s += 1;" = .ok program ∧ program.toModule = .ok m ∧
      program.diagnostics = [] ∧ m.applications = [⟨.add, .name "s", .number "1"⟩] ∧
      ∃ visit ∈ program.visits, visit.table.kinds "s" = some .text ∧
        ∀ operation ∈ m.applications, ¬operation.Sorted visit.table.kinds :=
  exists_module (fun program m => program.diagnostics = [] ∧
      m.applications = [⟨.add, .name "s", .number "1"⟩] ∧
      ∃ visit ∈ program.visits, visit.table.kinds "s" = some .text ∧
        ∀ operation ∈ m.applications, ¬operation.Sorted visit.table.kinds) (by decide +kernel)
    fun _ _ _ h => h

end Program

end MiniJava
