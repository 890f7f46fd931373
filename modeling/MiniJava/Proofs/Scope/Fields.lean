import MiniJava.Proofs.Diagnostics.Occurrences
import MiniJava.Proofs.Scope.Agreement

/-!
# How fields are reached

A static field belongs in its class and every other field in the object. In the emitted text what a
field is reached through depends on the method instead of the field, and a field of an outer class
is not reached through anything. So a field is found where it is kept only if it is one of the
innermost class and, unless the class has the name of the object, it is static exactly if the method
is.
-/

namespace MiniJava

open SymbolTable (Nest)

/-- A field where a name means it: its class, and how many classes further out that one is than the
innermost. -/
structure FieldUse where
  up : Nat
  owner : ClassDecl
  decl : VarDecl

namespace FieldUse

def isStatic (field : FieldUse) : Bool := field.decl.modifiers.contains .static

/-- The expression names what keeps the field's value: the class of a static field, or the object
of a field of the innermost class. A bare name never does. -/
structure Reached (field : FieldUse) (out : Target.Expr) : Prop where
  ofClass : field.isStatic = true → out = .member field.owner.name field.decl.name
  ofObject : field.isStatic = false → field.up = 0 → out = .member "self" field.decl.name
  notBare : out ≠ .name field.decl.name

end FieldUse

/-- What fields of the innermost class are reached through in a method of this kind. -/
def MethodKind.holder (kind : MethodKind) (owner : ClassDecl) : String :=
  match kind with
  | .ofClass => owner.name
  | .ofInstance => "self"

namespace Occurrence

variable {occurrence : Occurrence}

/-- How the name is written if it has the checker's declaration. -/
def written (occurrence : Occurrence) : Target.Expr :=
  occurrence.around.place.reference occurrence.symbols occurrence.name

/-- The field that the name means, if the checker finds its declaration in the scope of a class. -/
def field? (occurrence : Occurrence) : Option FieldUse := do
  let (scope, _) ← occurrence.symbols.resolve? occurrence.name
  let classes := occurrence.around.classes
  if 0 < scope ∧ scope ≤ classes.length then
    let owner ← classes[classes.length - scope]?
    let decl ← fieldNamed? occurrence.name owner.members
    return ⟨classes.length - scope, owner, decl⟩
  else none

/-- A declaration in the scope of a class is that of a field of the class. -/
theorem InClasses.exists_field (h : occurrence.InClasses) {scope : Nat} {symbol : Symbol}
    (hresolve : occurrence.symbols.resolve? occurrence.name = some (scope, symbol))
    (hpos : 0 < scope) (hle : scope ≤ occurrence.around.classes.length) :
    ∃ field, occurrence.field? = some field ∧ scope + field.up = occurrence.around.classes.length ∧
      symbol.type = .ofTypeName field.decl.type ∧ symbol.position = field.decl.position := by
  obtain ⟨scopes, hnest, front, hsuffix⟩ := h
  have hbare := occurrence.symbols.resolve?_bare occurrence.name
  rw [hresolve, Option.map_some, SymbolTable.resolve?, ← hsuffix] at hbare
  have houter := SymbolTable.resolveIn_outer hbare (by rw [hnest.length]; omega)
  obtain ⟨-, owner, decl, howner, hdecl, hsymbol⟩ := hnest.exists_field houter hpos
  refine ⟨⟨occurrence.around.classes.length - scope, owner, decl⟩, ?_, Nat.add_sub_of_le hle,
    congrArg Symbol.type hsymbol, congrArg Symbol.position hsymbol⟩
  simp [field?, hresolve, hpos, hle, howner, hdecl]

theorem exists_of_field {field : FieldUse} (h : occurrence.field? = some field) :
    ∃ scope symbol, occurrence.symbols.resolve? occurrence.name = some (scope, symbol) ∧
      0 < scope ∧ scope + field.up = occurrence.around.classes.length ∧
      occurrence.around.classes[field.up]? = some field.owner ∧
      field.decl.name = occurrence.name := by
  simp only [field?, Option.bind_eq_bind, Option.bind_eq_some_iff] at h
  obtain ⟨⟨scope, symbol⟩, hresolve, h⟩ := h
  split at h
  · next hscope =>
      obtain ⟨owner, howner, h⟩ := Option.bind_eq_some_iff.mp h
      obtain ⟨decl, hdecl, h⟩ := Option.bind_eq_some_iff.mp h
      obtain rfl := Option.some.inj h
      exact ⟨scope, symbol, hresolve, hscope.1, Nat.add_sub_of_le hscope.2, howner,
        name_of_fieldNamed hdecl⟩
  · cases h

/-- The kind of the method decides about a field of the innermost class, and a field of an outer
class stays bare. -/
theorem written_of_field {field : FieldUse} (h : occurrence.field? = some field)
    {kind : MethodKind} (hmethod : occurrence.around.method = some kind) :
    occurrence.written =
      if field.up = 0 then .member (kind.holder field.owner) occurrence.name
      else .name occurrence.name := by
  obtain ⟨scope, symbol, hresolve, hpos, hscope, howner, -⟩ := exists_of_field h
  have hholder : occurrence.around.place.fieldHolder? occurrence.symbols occurrence.name =
      if field.up = 0 then some (kind.holder field.owner) else none := by
    cases hclasses : occurrence.around.classes with
    | nil =>
        rw [hclasses] at howner
        cases howner
    | cons innermost outer =>
        rw [hclasses] at howner hscope
        unfold Place.fieldHolder? Surroundings.place
        rw [hclasses, hmethod, hresolve]
        by_cases hup : field.up = 0
        · rw [hup] at howner hscope
          obtain rfl : innermost = field.owner := Option.some.inj howner
          obtain rfl : scope = (field.owner :: outer).length := hscope
          cases kind <;> simp [hup, MethodKind.holder]
        · have hne : scope ≠ (innermost :: outer).length := by omega
          exact (if_neg hne).trans (if_neg hup).symm
  rw [written, Place.reference, hholder]
  by_cases hup : field.up = 0
  · rw [if_pos hup, if_pos hup]
  · rw [if_neg hup, if_neg hup]

theorem reached_iff {field : FieldUse} (h : occurrence.field? = some field)
    {kind : MethodKind} (hmethod : occurrence.around.method = some kind) :
    field.Reached occurrence.written ↔
      field.up = 0 ∧ ((field.isStatic = true ↔ kind = .ofClass) ∨ field.owner.name = "self") := by
  obtain ⟨-, -, -, -, -, -, hname⟩ := exists_of_field h
  rw [written_of_field h hmethod, ← hname]
  constructor
  · intro hreached
    by_cases hup : field.up = 0
    · refine ⟨hup, ?_⟩
      rw [if_pos hup] at hreached
      cases hstatic : field.isStatic with
      | true =>
          have hholder := (Target.Expr.member.inj (hreached.ofClass hstatic)).1
          cases kind with
          | ofClass => exact .inl (by simp)
          | ofInstance => exact .inr hholder.symm
      | false =>
          have hholder := (Target.Expr.member.inj (hreached.ofObject hstatic hup)).1
          cases kind with
          | ofClass => exact .inr hholder
          | ofInstance => exact .inl (by simp)
    · rw [if_neg hup] at hreached
      exact absurd rfl hreached.notBare
  · rintro ⟨hup, hkind⟩
    rw [if_pos hup]
    refine ⟨fun hstatic => ?_, fun hstatic _ => ?_, nofun⟩
    · rcases hkind with hkind | hself
      · rw [hkind.mp hstatic, MethodKind.holder]
      · cases kind
        · rfl
        · rw [MethodKind.holder, hself]
    · rcases hkind with hkind | hself
      · cases kind
        · exact absurd (hkind.mpr rfl) (by simp [hstatic])
        · rfl
      · cases kind
        · rw [MethodKind.holder, hself]
        · rfl

end Occurrence

namespace Program

/-- In a tidy program the references in the emitted text are the occurrences as they are written
with the checker's declarations. A name in a method that the checker finds in the scope of a class
means a field of that class; it is reached through what the method has for it if the class is the
innermost one and stays bare if not, so it is found where it is kept exactly in the cases below. -/
theorem references_of_fields (program : Program) (m : Target.Module) (h : program.toModule = .ok m)
    (htidy : program.tidy = true) :
    m.references = program.occurrences.map Occurrence.written ∧
      ∀ occurrence ∈ program.occurrences, ∀ kind, occurrence.around.method = some kind →
        ∀ scope symbol, occurrence.symbols.resolve? occurrence.name = some (scope, symbol) →
          0 < scope → scope ≤ occurrence.around.classes.length →
            ∃ field, occurrence.field? = some field ∧
              scope + field.up = occurrence.around.classes.length ∧
              (symbol.type = .ofTypeName field.decl.type ∧
                symbol.position = field.decl.position) ∧
              occurrence.written = (if field.up = 0 then
                .member (kind.holder field.owner) occurrence.name else .name occurrence.name) ∧
              (field.Reached occurrence.written ↔ field.up = 0 ∧
                ((field.isStatic = true ↔ kind = .ofClass) ∨ field.owner.name = "self")) := by
  obtain ⟨hmeanings, hinClasses⟩ := program.occurrences_stand
  obtain ⟨after, hitems⟩ := exists_of_toModule h
  have hlowered : program.loweredMeanings = program.checkedMeanings := items_agree htidy rfl hitems
  refine ⟨?_, ?_⟩
  · rw [references_eq h, hlowered, hmeanings, List.map_map]
    rfl
  · intro occurrence hmem kind hmethod scope symbol hresolve hpos hle
    have hin := hinClasses occurrence hmem (by rw [hmethod]; nofun)
    obtain ⟨field, hfield, hup, hsymbol⟩ := hin.exists_field hresolve hpos hle
    exact ⟨field, hfield, hup, hsymbol, Occurrence.written_of_field hfield hmethod,
      Occurrence.reached_iff hfield hmethod⟩

/-- In a nested class the field of the outer one is read with its bare name. -/
theorem references_of_fields_nested :
    ∃ program m, ofSource ("class A \x7b static int n; static void p() \x7b n++; \x7d " ++
        "class B \x7b int k; void m(int j) \x7b k = n + j; \x7d \x7d \x7d") = .ok program ∧
      program.toModule = .ok m ∧ program.tidy = true ∧
      m.references = program.occurrences.map Occurrence.written ∧
      ∃ occurrence ∈ program.occurrences, occurrence.around.method = some .ofInstance ∧
        ∃ field, occurrence.field? = some field ∧ field.up = 1 ∧
          occurrence.written = .name occurrence.name ∧ ¬ field.Reached occurrence.written := by
  refine exists_module (fun program _ => program.tidy = true ∧
    ∃ occurrence ∈ program.occurrences, occurrence.around.method = some .ofInstance ∧
      (occurrence.symbols.resolve? occurrence.name).map Prod.fst = some 1 ∧
      occurrence.around.classes.length = 2) (by decide +kernel) ?_
  rintro program m hmodule ⟨htidy, occurrence, hmem, hmethod, hscope, hlength⟩
  obtain ⟨⟨scope, symbol⟩, hresolve, hnumber⟩ := Option.map_eq_some_iff.mp hscope
  obtain rfl : scope = 1 := hnumber
  obtain ⟨hreferences, hfields⟩ := references_of_fields program m hmodule htidy
  obtain ⟨field, hfield, hup, -, hwritten, hreached⟩ :=
    hfields occurrence hmem .ofInstance hmethod 1 symbol hresolve Nat.one_pos (by omega)
  have hone : field.up = 1 := by omega
  rw [hone] at hwritten hreached
  exact ⟨htidy, hreferences, occurrence, hmem, hmethod, field, hfield, hone, hwritten,
    fun h => Nat.one_ne_zero (hreached.mp h).1⟩

/-- What the names in methods mean that are fields: how many classes further out, whether static,
and how they are written. -/
def fieldUses (program : Program) : List (Nat × Bool × Target.Expr) :=
  (program.occurrences.filter fun occurrence => occurrence.around.method.isSome).filterMap
    fun occurrence => occurrence.field?.map fun field =>
      (field.up, field.isStatic, occurrence.written)

/-- The checker finds nothing wrong, yet a static field is reached through the object, and from a
nested class it is a bare name, which assigns a variable of the method. -/
theorem static_field_written_elsewhere :
    ∃ program m, ofSource ("class A \x7b static int n; void p() \x7b n = 1; \x7d " ++
        "class B \x7b void m() \x7b n = 2; \x7d \x7d \x7d") = .ok program ∧
      program.toModule = .ok m ∧ program.diagnostics = [] ∧ program.tidy = true ∧
      m.references = [.name "n", .member "self" "n", .name "n"] ∧
      program.fieldUses = [(0, true, .member "self" "n"), (1, true, .name "n")] :=
  exists_module (fun program m => program.diagnostics = [] ∧ program.tidy = true ∧
    m.references = [.name "n", .member "self" "n", .name "n"] ∧
    program.fieldUses = [(0, true, .member "self" "n"), (1, true, .name "n")])
    (by decide +kernel) fun _ _ _ h => h

end Program

end MiniJava
