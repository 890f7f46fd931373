import MiniJava.Proofs.Diagnostics.Clean
import MiniJava.Proofs.Diagnostics.Stateful
import MiniJava.Proofs.Scope.Maps

/-!
# What a check may change

The checks of a statement enter and leave scopes in pairs, so they are a balanced session with the
symbol table: behind them the scopes are those of before, in which nothing has happened but that
variables have been assigned, and that the innermost scope has further declarations. Behind a class
not even these have come. Diagnostics are only ever added.
-/

namespace MiniJava

/-- The variable may have been assigned, and is otherwise what it was. -/
structure Symbol.Keeps (symbol after : Symbol) : Prop where
  type : after.type = symbol.type
  position : after.position = symbol.position
  constant : after.constant = symbol.constant
  initialized : symbol.initialized = true → after.initialized = true

theorem Symbol.exists_keeps {symbol : Symbol} {found : Option Symbol}
    (h : found = some symbol ∨ found = some symbol.marked) :
    ∃ kept, found = some kept ∧ symbol.Keeps kept := by
  rcases h with rfl | rfl
  · exact ⟨_, rfl, rfl, rfl, rfl, id⟩
  · exact ⟨_, rfl, rfl, rfl, rfl, fun _ => rfl⟩

namespace SymbolTable

/-- The scopes are those of before with all their declarations; only the innermost may have got
further ones. -/
structure Keeps (table after : SymbolTable) : Prop where
  depth : after.depth = table.depth
  symbols : ∀ number name symbol, table.cell? number name = some symbol →
    ∃ kept, after.cell? number name = some kept ∧ symbol.Keeps kept
  outer : ∀ number name, number < table.enclosing.length →
    (after.cell? number name).isSome = (table.cell? number name).isSome

theorem cellIn_of_marks {scopes others : List Scope}
    (h : List.Forall₂ Bindings.Marks (scopes.map Scope.bindings) (others.map Scope.bindings))
    (number : Nat) (name : String) :
    cellIn number name others = cellIn number name scopes ∨
      cellIn number name others = (cellIn number name scopes).map Symbol.marked := by
  induction scopes generalizing others with
  | nil =>
      cases others with
      | nil => exact .inl rfl
      | cons other rest => cases h
  | cons scope outer ih =>
      cases others with
      | nil => cases h
      | cons other rest =>
          obtain ⟨hscope, houter⟩ := List.forall₂_cons.mp h
          have hlength : rest.length = outer.length := by simpa using houter.length_eq.symm
          rw [cellIn, cellIn, hlength]
          split
          · have hname := hscope name
            rwa [Scope.lookup_bindings, Scope.lookup_bindings] at hname
          · exact ih houter

theorem isSome_cellIn_of_marks {scopes others : List Scope}
    (h : List.Forall₂ Bindings.Marks (scopes.map Scope.bindings) (others.map Scope.bindings))
    (number : Nat) (name : String) :
    (cellIn number name others).isSome = (cellIn number name scopes).isSome := by
  rcases cellIn_of_marks h number name with hname | hname <;> rw [hname]
  exact Option.isSome_map

section Cells

variable {table after : SymbolTable} {number : Nat} {name : String}

theorem cell?_current : table.cell? table.enclosing.length name = table.current.lookup name :=
  if_pos rfl

theorem cell?_enclosing (h : table.enclosing.length ≠ number) :
    table.cell? number name = cellIn number name table.enclosing := if_neg h

theorem keeps_of_grows (h : MapStack.Grows table.maps after.maps) : table.Keeps after := by
  rw [maps_cons, maps_cons] at h
  obtain ⟨hcurrent, houter⟩ := h
  have hlength : after.enclosing.length = table.enclosing.length := by
    simpa using houter.length_eq.symm
  refine ⟨congrArg Nat.succ hlength, fun number name symbol hcell => ?symbols,
    fun number name hnumber => ?outer⟩
  case symbols =>
    refine Symbol.exists_keeps ?_
    by_cases hinnermost : table.enclosing.length = number
    · rw [← hinnermost, cell?_current] at hcell
      rw [← hinnermost, ← hlength, cell?_current, ← Scope.lookup_bindings]
      exact hcurrent name symbol ((Scope.lookup_bindings ..).trans hcell)
    · rw [cell?_enclosing hinnermost] at hcell
      rw [cell?_enclosing (hlength ▸ hinnermost)]
      have hname := cellIn_of_marks houter number name
      rwa [hcell] at hname
  case outer =>
    have hne := Nat.ne_of_gt hnumber
    rw [cell?_enclosing hne, cell?_enclosing (hlength ▸ hne)]
    exact isSome_cellIn_of_marks houter number name

/-- Scopes in which variables have only been assigned have the names that they had. -/
theorem isSome_cell?_of_marks (h : List.Forall₂ Bindings.Marks table.maps after.maps)
    (number : Nat) (name : String) :
    (after.cell? number name).isSome = (table.cell? number name).isSome :=
  isSome_cellIn_of_marks h number name

end Cells

end SymbolTable

open SymbolTable (Action Balanced)

/-- What a check does to the table. -/
def Check.actions : Check → List Action
  | .enter => [.enter]
  | .leave => [.leave]
  | .declares type name position initialized constant =>
    [.declare name ⟨.ofTypeName type, position, initialized, constant⟩]
  | .stores target _ _ _ => [.mark target]
  | _ => []

theorem Check.after_eq_afterAll (table : SymbolTable) (c : Check) :
    c.after table = table.afterAll c.actions := by
  rw [Check.after_eq]
  cases c with
  | declares type name position initialized constant =>
      simp only [SymbolTable.afterAll, actions, List.foldl_cons, List.foldl_nil,
        SymbolTable.perform, SymbolTable.declare, SymbolTable.bring]
      cases table.current.lookup name <;> rfl
  | _ => rfl

theorem SymbolTable.run_eq_afterAll (checks : List Check) (table : SymbolTable) :
    table.run checks = table.afterAll (checks.flatMap Check.actions) := by
  induction checks generalizing table with
  | nil => rfl
  | cons first rest ih =>
      rw [run_cons, ih, Check.after_eq_afterAll, List.flatMap_cons, afterAll_append]

def Nested (checks : List Check) : Prop := Balanced (checks.flatMap Check.actions)

namespace Nested

theorem append {checks more : List Check} (h : Nested checks) (hmore : Nested more) :
    Nested (checks ++ more) := by
  rw [Nested, List.flatMap_append]
  exact Balanced.append h hmore

theorem alone {c : Check} (henter : c ≠ .enter) (hleave : c ≠ .leave) : Nested [c] := by
  cases c with
  | enter => exact absurd rfl henter
  | leave => exact absurd rfl hleave
  | declares | stores => exact .plain nofun nofun .nil
  | _ => exact .nil

theorem expr (e : Expr) : Nested e.checks := by
  induction e with
  | literal value position => exact .nil
  | name word position => exact alone nofun nofun
  | binary op lhs rhs ihl ihr => exact (ihl.append ihr).append (alone nofun nofun)
  | unary op operand ih => exact ih.append (alone nofun nofun)
  | assign target op value position ih => exact ih.append (alone nofun nofun)
  | step target op form position => exact alone nofun nofun

theorem composed : Composed Nested where
  nil := .nil
  append := append
  scope {checks} h := by
    have hactions : (Check.enter :: checks ++ [Check.leave]).flatMap Check.actions =
        .enter :: (checks.flatMap Check.actions ++ [.leave]) := by
      simp [Check.actions]
    rw [Nested, hactions]
    exact .scope h .nil
  expr := expr
  behind e c hoperands _ := (expr e).append (alone (by rintro rfl; cases hoperands)
    (by rintro rfl; cases hoperands))
  alone _ _ := alone

end Nested

namespace Inspection

variable (inspection : Inspection)

theorem prefix_check (c : Check) :
    inspection.diagnostics <+: (inspection.check c).diagnostics := by
  rw [check_eq]
  exact List.prefix_append ..

/-- No check takes back what the earlier ones have found. -/
theorem prefix_run (checks : List Check) :
    inspection.diagnostics <+: (inspection.run checks).diagnostics := by
  induction checks generalizing inspection with
  | nil => exact List.prefix_rfl
  | cons first rest ih => exact (inspection.prefix_check first).trans (ih _)

theorem grows_run {checks : List Check} (h : Nested checks) :
    MapStack.Grows inspection.symbols.maps (inspection.run checks).symbols.maps := by
  rw [symbols_run, SymbolTable.run_eq_afterAll]
  exact SymbolTable.grows_balanced h _

/-- In a scope of their own, checks only mark what is declared around it. -/
theorem marks_run {checks : List Check} (h : Nested checks) :
    List.Forall₂ Bindings.Marks inspection.symbols.maps
      (inspection.run (.enter :: checks ++ [.leave])).symbols.maps := by
  rw [List.cons_append, run_cons, run_append]
  exact SymbolTable.marks_scope (inspection.enter.grows_run h)

theorem marks_class (decl : ClassDecl) :
    List.Forall₂ Bindings.Marks inspection.symbols.maps
      (inspection.run (classChecks decl)).symbols.maps := by
  obtain ⟨modifiers, name, list, position⟩ := decl
  rw [classChecks]
  exact inspection.marks_run
    ((Nested.composed.fields list).append (Nested.composed.members list))

end Inspection

theorem Program.prefix_diagnostics (items more : List Item) :
    Program.diagnostics ⟨items⟩ <+: Program.diagnostics ⟨items ++ more⟩ := by
  have hchecks : Program.checks ⟨items ++ more⟩ =
      Program.checks ⟨items⟩ ++ Program.checks ⟨more⟩ := List.flatMap_append
  rw [diagnostics_eq_run, diagnostics_eq_run, hchecks, Inspection.run_append]
  exact Inspection.prefix_run ..

namespace Checker

/-- The checker `after` still has the declarations, the return type and the diagnostics of `checker`,
and may have found more. -/
structure Keeps (checker after : Checker) : Prop where
  symbols : checker.inspection.symbols.Keeps after.inspection.symbols
  expected : after.expected = checker.expected
  diagnostics : checker.inspection.diagnostics <+: after.inspection.diagnostics

theorem keeps_run (checker : Checker) {checks : List Check} (h : Nested checks) :
    checker.Keeps ⟨checker.inspection.run checks, checker.expected⟩ :=
  ⟨SymbolTable.keeps_of_grows (checker.inspection.grows_run h), rfl,
    checker.inspection.prefix_run checks⟩

/-- Behind a statement the checker has the scopes that it had, with further declarations at most in
the innermost one, the same return type, and the diagnostics that it had in front of those that the
statement adds. Behind a class the innermost scope has no further declarations either. So what is
found in the first items of a program comes first in what is found in the program. -/
theorem keeps_walk (checker : Checker) :
    (∀ s, checker.Keeps (checker.stmt s) ∧
      (checker.stmt s).inspection = checker.inspection.stmt checker.expected s) ∧
    (∀ decl, checker.Keeps (checker.classDecl decl) ∧
      (checker.classDecl decl).inspection = checker.inspection.classDecl decl ∧
      ∀ number name, ((checker.classDecl decl).inspection.symbols.cell? number name).isSome =
        (checker.inspection.symbols.cell? number name).isSome) ∧
    ∀ items more : List Item,
      Program.diagnostics ⟨items⟩ = (items.foldl item ⟨.start, none⟩).inspection.diagnostics ∧
      Program.diagnostics ⟨items⟩ <+: Program.diagnostics ⟨items ++ more⟩ := by
  refine ⟨fun s => ?_, fun decl => ?_, fun items more => ⟨?_, Program.prefix_diagnostics items more⟩⟩
  · rw [stmt_eq, Inspection.run_stmt]
    exact ⟨checker.keeps_run (Nested.composed.stmt _ s), rfl⟩
  · rw [classDecl_eq, Inspection.run_classDecl]
    exact ⟨checker.keeps_run (Nested.composed.classDecl decl), rfl,
      SymbolTable.isSome_cell?_of_marks (checker.inspection.marks_class decl)⟩
  · rw [items_eq]
    rfl

end Checker

end MiniJava
