import MiniJava.Proofs.Diagnostics.Checks
import MiniJava.Proofs.Grammar.ProgramSound

/-!
# Returned values and initial values

A value may be returned from a method exactly if a variable of the method's return type may be
declared with it, except for the integer literals that narrow: they are stored in variables of the
types below `int`, and no method of such a type returns them. What is wrong inside the value is
found in both places.
-/

namespace MiniJava

/-- The types that a literal narrows to are the ones that an `int` does not widen to. -/
theorem ValueType.not_accepts_of_narrows {target : ValueType} {value : Expr}
    (h : Inspection.narrows target value = true) : target.accepts .int = false := by
  cases value with
  | literal value position =>
      have htarget : (target = .byte ∨ target = .short) ∨ target = .char := by
        simpa using (Bool.and_eq_true_iff.mp h).2
      obtain (rfl | rfl) | rfl := htarget <;> rfl
  | _ => cases h

namespace Inspection

variable (inspection : Inspection)

def Adds (kind : DiagnosticKind) (after : Inspection) (found : Option Diagnostic) : Prop :=
  after.diagnostics = inspection.diagnostics ++ found.toList ∧ ∀ d ∈ found, d.kind = kind

theorem adds_none (kind : DiagnosticKind) : inspection.Adds kind inspection none :=
  ⟨(List.append_nil _).symm, by simp⟩

theorem exists_reportIf (condition : Bool) (position : Position) (problem : Problem) :
    ∃ found, inspection.Adds problem.kind (inspection.reportIf condition position problem) found ∧
      (found = none ↔ condition = false) := by
  cases condition with
  | false => exact ⟨none, inspection.adds_none _, by simp⟩
  | true =>
      refine ⟨some ⟨problem, position⟩, ⟨rfl, fun d hd => ?_⟩, by simp⟩
      rw [← Option.mem_some_iff.mp hd]
      rfl

theorem exists_declare (name : String) (symbol : Symbol) :
    ∃ found, inspection.Adds .redeclared (inspection.declare name symbol) found := by
  unfold declare
  cases inspection.symbols.declare name symbol with
  | ok symbols => exact ⟨none, inspection.adds_none _⟩
  | error previous =>
      obtain ⟨found, hfound, -⟩ :=
        inspection.exists_reportIf true symbol.position (.redeclared name previous)
      exact ⟨found, hfound⟩

theorem exists_assignable (target : ValueType) (source : Option ValueType) (value : Expr)
    (position : Position) :
    ∃ found, inspection.Adds .typeMismatch
        (inspection.assignable target source value position) found ∧
      (found = none ↔
        ∀ type ∈ source, target.accepts type = true ∨ narrows target value = true) := by
  cases source with
  | none => exact ⟨none, inspection.adds_none _, by simp⟩
  | some source =>
      obtain ⟨found, hfound, hnone⟩ := inspection.exists_reportIf
        (!target.accepts source && !narrows target value) position (.unassignable source target)
      exact ⟨found, hfound, hnone.trans (by simp [or_iff_not_imp_left])⟩

theorem exists_returned {expected : ValueType} (h : expected ≠ .void) (value : Expr)
    (position : Position) :
    ∃ found, (inspection.expr value).after.Adds .returnMismatch
        (inspection.returned (some expected) position (some value)) found ∧
      (found = none ↔ ∀ type ∈ (inspection.expr value).type, expected.accepts type = true) := by
  cases htype : (inspection.expr value).type with
  | none =>
      have hreturned : inspection.returned (some expected) position (some value) =
          (inspection.expr value).after := by
        cases expected with
        | void => exact absurd rfl h
        | _ => simp only [returned, htype]
      exact ⟨none, hreturned ▸ adds_none _ _, by simp⟩
  | some type =>
      have hreturned : inspection.returned (some expected) position (some value) =
          (inspection.expr value).after.reportIf (!expected.accepts type) position
            (.returnMismatch type expected) := by
        cases expected with
        | void => exact absurd rfl h
        | _ => simp only [returned, htype]
      obtain ⟨found, hfound, hnone⟩ := (inspection.expr value).after.exists_reportIf
        (!expected.accepts type) position (.returnMismatch type expected)
      exact ⟨found, hreturned ▸ hfound, hnone.trans (by simp)⟩

/-- A `return` of a value and a declaration with it find the same inside the value. Behind that
each finds at most one problem of types, and one finds it exactly if the other does, unless the
value is a literal that narrows to the type: then the `return` finds one and the declaration does
not. -/
theorem returned_like_initial {type : TypeName} (h : ValueType.ofTypeName type ≠ .void)
    (value : Expr) (modifiers : List Modifier) (name : String) (position place : Position) :
    let expected := ValueType.ofTypeName type
    let inside := (inspection.expr value).after
    let returned := inspection.stmt (some expected) (.returns (some value) position)
    let declared :=
      inspection.stmt (some expected) (.declare ⟨modifiers, type, name, some value, place⟩)
    ∃ mismatch unassignable redeclared : Option Diagnostic,
      returned.diagnostics = inside.diagnostics ++ mismatch.toList ∧
      declared.diagnostics = inside.diagnostics ++ unassignable.toList ++ redeclared.toList ∧
      (∀ d ∈ mismatch, d.kind = .returnMismatch) ∧
      (∀ d ∈ unassignable, d.kind = .typeMismatch) ∧
      (∀ d ∈ redeclared, d.kind = .redeclared) ∧
      (narrows expected value = false → (mismatch.isSome ↔ unassignable.isSome)) ∧
      (narrows expected value = true → mismatch.isSome ∧ unassignable = none) := by
  intro expected inside returned declared
  obtain ⟨mismatch, ⟨hreturned, hmismatch⟩, hreturns⟩ :=
    inspection.exists_returned h value position
  obtain ⟨unassignable, ⟨hassigned, hunassignable⟩, hassigns⟩ :=
    inside.exists_assignable expected (inspection.expr value).type value place
  obtain ⟨redeclared, hdeclared, hredeclared⟩ :=
    (inside.assignable expected (inspection.expr value).type value place).exists_declare name
      ⟨expected, place, true, VarDecl.isFinal ⟨modifiers, type, name, some value, place⟩⟩
  refine ⟨mismatch, unassignable, redeclared, hreturned, hdeclared.trans (by rw [hassigned]),
    hmismatch, hunassignable, hredeclared, fun hnarrows => ?_, fun hnarrows => ?_⟩
  · have hsame : mismatch = none ↔ unassignable = none := by
      rw [hreturns, hassigns, hnarrows]
      simp [expected]
    rw [← Option.ne_none_iff_isSome, ← Option.ne_none_iff_isSome, ne_eq, ne_eq, hsame]
  · refine ⟨Option.ne_none_iff_isSome.mp fun hnone => ?_,
      hassigns.mpr fun _ _ => .inr hnarrows⟩
    have htype : .int ∈ (inspection.expr value).type := by
      rw [expr_type]
      exact SymbolTable.typeOf_of_narrows hnarrows
    have haccepts := hreturns.mp hnone .int htype
    rw [ValueType.not_accepts_of_narrows hnarrows] at haccepts
    cases haccepts

/-- A method that returns `short` returns no `int`, and a variable that is a `short` holds none:
the sum of a character and a literal is no literal. -/
theorem returned_like_initial_sum :
    let inspection : Inspection := ⟨⟨[("c", ⟨.char, ⟨1, 1⟩, false, false⟩)], []⟩, []⟩
    let sum : Expr := .binary .add (.name "c" ⟨2, 1⟩) (.literal (.number "1") ⟨2, 5⟩)
    let returned := inspection.stmt (some .short) (.returns (some sum) ⟨2, 1⟩)
    let declared :=
      inspection.stmt (some .short) (.declare ⟨[], ⟨"short", 0⟩, "c", some sum, ⟨2, 1⟩⟩)
    returned.diagnostics.map Diagnostic.kind = [.uninitialized, .returnMismatch] ∧
    declared.diagnostics.map Diagnostic.kind = [.uninitialized, .typeMismatch, .redeclared] ∧
    ∃ mismatch unassignable redeclared : Option Diagnostic,
      returned.diagnostics = (inspection.expr sum).after.diagnostics ++ mismatch.toList ∧
      declared.diagnostics = (inspection.expr sum).after.diagnostics ++ unassignable.toList ++
        redeclared.toList ∧
      (mismatch.isSome ↔ unassignable.isSome) := by
  intro inspection sum returned declared
  obtain ⟨mismatch, unassignable, redeclared, hreturned, hdeclared, -, -, -, hsame, -⟩ :=
    returned_like_initial inspection (by decide : ValueType.ofTypeName ⟨"short", 0⟩ ≠ .void) sum []
      "c" ⟨2, 1⟩ ⟨2, 1⟩
  exact ⟨by decide, by decide, mismatch, unassignable, redeclared, hreturned, hdeclared, hsame rfl⟩

end Inspection

namespace Program

/-- The literal of a `byte` variable is rejected in a method that returns `byte`. -/
theorem literal_not_returned :
    (∃ program,
      ofSource "class A \x7b byte m() \x7b byte v = 1; return v; \x7d \x7d" = .ok program ∧
        program.diagnostics = []) ∧
    ∃ program, ofSource "class A \x7b byte m() \x7b return 1; \x7d \x7d" = .ok program ∧
      program.diagnostics.map Diagnostic.kind = [.returnMismatch] :=
  ⟨exists_program _ (fun program => program.diagnostics = []) (by decide +kernel),
    exists_program _ (fun program => program.diagnostics.map Diagnostic.kind = [.returnMismatch])
      (by decide +kernel)⟩

end Program

end MiniJava
