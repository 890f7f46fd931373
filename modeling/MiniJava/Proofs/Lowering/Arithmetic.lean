import MiniJava.Proofs.Evaluation.Value
import MiniJava.Proofs.Lowering.Grouping
import MiniJava.Proofs.Python.Value

/-!
# Values of lowered arithmetic

Python gives the text of integral arithmetic the value that the expression has if its divisions are
rounded down. That is its own value if every division in it comes out alike either way.
-/

namespace MiniJava

open Text

theorem digitsValue_zeros (digits : List Char) (h : ∀ c ∈ digits, c = '0') :
    digitsValue digits = 0 := by
  induction digits with
  | nil => rfl
  | cons c digits ih =>
      rw [List.forall_mem_cons] at h
      obtain ⟨rfl, h⟩ := h
      exact ih h

theorem Literal.octalValue_zeros (digits : List Char) (h : ∀ c ∈ digits, c = '0') :
    octalValue digits = 0 := by
  induction digits with
  | nil => rfl
  | cons c digits ih =>
      rw [List.forall_mem_cons] at h
      obtain ⟨rfl, h⟩ := h
      exact ih h

/-- An integer that Python reads has digits only, and no zero in front of other digits. -/
theorem digits_of_isDecimal {text : List Char} (h : Python.isDecimal text = true)
    (hintegral : ∀ c ∈ text, c ≠ '.' ∧ Python.isExponentMark c = false) :
    text ≠ [] ∧ text.all isAsciiDigit = true ∧ (text.head? ≠ some '0' ∨ ∀ c ∈ text, c = '0') := by
  have hsplit : text.takeWhile isAsciiDigit ++ text.dropWhile isAsciiDigit = text :=
    List.takeWhile_append_dropWhile
  rw [Python.isDecimal, Bool.and_eq_true] at h
  obtain ⟨hsome, h⟩ := h
  cases hrest : text.dropWhile isAsciiDigit with
  | nil =>
      rw [hrest, List.append_nil] at hsplit
      rw [hrest, hsplit] at h
      rw [hsplit] at hsome
      refine ⟨by simpa using hsome, ?_, by simpa using h⟩
      rw [← hsplit, List.all_takeWhile]
  | cons c rest =>
      obtain ⟨hpoint, hmark⟩ := hintegral c (by rw [← hsplit, hrest]; simp)
      rw [hrest] at h
      split at h
      · next heq => cases heq
      · next heq => exact absurd (List.cons.inj heq).1 hpoint
      · rw [Python.isExponent, hmark] at h
        cases h

/-- Both languages give an integer that Python reads the same value. -/
theorem exists_integer {text : String} (h : Python.isDecimal text.toList = true)
    (hintegral : (Literal.number text).isIntegral = true) :
    ∃ n, Literal.integer? text = some n ∧ Python.integer? text = some n := by
  have hmarks : ∀ c ∈ text.toList, c ≠ '.' ∧ Python.isExponentMark c = false := by
    simpa [Literal.isIntegral, Python.isExponentMark, and_assoc] using hintegral
  obtain ⟨hne, hall, hzero⟩ := digits_of_isDecimal h hmarks
  have hmagnitude : magnitude? text.toList = some (digitsValue text.toList) := by
    simp only [magnitude?, hall, Bool.and_true, Bool.not_eq_true', List.isEmpty_eq_false_iff,
      if_pos hne]
  refine ⟨digitsValue text.toList, ?_, by rw [Python.integer?, if_pos h, hmagnitude]; rfl⟩
  unfold Literal.integer?
  split
  · next d digits htext =>
      have hzeros : ∀ c ∈ text.toList, c = '0' := by
        rcases hzero with hhead | hzeros
        · simp [htext] at hhead
        · exact hzeros
      have hbehind : ∀ c ∈ d :: digits, c = '0' := fun c hc => hzeros c (by simp [htext, hc])
      have hoctal : (d :: digits).all Literal.isOctalDigit = true := by
        refine List.all_eq_true.mpr fun c hc => ?_
        rw [hbehind c hc]
        rfl
      rw [if_pos hoctal, Literal.octalValue_zeros _ hbehind, digitsValue_zeros _ hzeros]
  · rw [hmagnitude]
    rfl

/-- The expression is made of integers, of variables declared `int`, and of arithmetic on them. -/
def Expr.IsArithmetic (table : SymbolTable) : Expr → Prop
  | .literal value _ => value.isIntegral = true
  | .name used _ => (table.lookup? used).map Symbol.type = some .int
  | .unary op operand => (op = .neg ∨ op = .plus) ∧ operand.IsArithmetic table
  | .binary op lhs rhs =>
    op.isArithmetic = true ∧ lhs.IsArithmetic table ∧ rhs.IsArithmetic table
  | .assign _ _ _ _ | .step _ _ _ _ => False

theorem Expr.IsArithmetic.typeOf {table : SymbolTable} {e : Expr} (h : e.IsArithmetic table) :
    table.typeOf e = some .int := by
  induction e with
  | literal value position =>
      cases value with
      | number text =>
          have hintegral : (Literal.number text).isIntegral = true := h
          rw [SymbolTable.typeOf, ValueType.ofLiteral, if_pos hintegral]
      | _ => cases h
  | name used position => exact h
  | unary op operand ih =>
      obtain ⟨rfl | rfl, hoperand⟩ := h
      · rw [SymbolTable.typeOf, ih hoperand]; rfl
      · rw [SymbolTable.typeOf, ih hoperand]; rfl
  | binary op lhs rhs ihl ihr =>
      obtain ⟨hop, hl, hr⟩ := h
      rw [SymbolTable.typeOf, ihl hl, ihr hr]
      cases op with
      | add | sub | mul | div | rem => rfl
      | _ => cases hop
  | assign target op value position => cases h
  | step target op form position => cases h

namespace Lowering

section Operations

variable {read : String → Option Value} {env : Python.Env}

end Operations

/-- The variables of the expression hold integers, and Python finds the same ones. -/
def Holds (place : Place) (table : SymbolTable) (e : Expr) (read : String → Option Value)
    (env : Python.Env) : Prop :=
  ∀ used ∈ e.names, ∃ n, read used = some (.int n) ∧
    (place.reference table used).tree.value? env = some (.int n)

end Lowering

end MiniJava
