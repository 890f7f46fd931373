import MiniJava.Lowering.Expression
import MiniJava.Proofs.Scope.Extends

/-!
# What names mean

A name means a declaration, and it is written with what the declaration is reached through if that
is a field of the innermost class. Two tables agree at a place on some names if these mean the
same in both. They need not have the same scopes: inside a method a name is only reached through
something if it means a declaration outside the method.
-/

namespace MiniJava

/-- What a name means where it occurs: its declaration, if there is one, and what it is reached
through if it is a field of the innermost class. -/
structure Meaning where
  name : String
  declaration : Option (ValueType × Position)
  holder : Option String
deriving DecidableEq, Repr

/-- How a name with this meaning is written. -/
def Meaning.reference (meaning : Meaning) : Target.Expr :=
  match meaning.holder with
  | some holder => .member holder meaning.name
  | none => .name meaning.name

namespace Place

variable (place : Place)

def meaning (table : SymbolTable) (name : String) : Meaning :=
  ⟨name, (table.resolve? name).map fun found => (found.2.type, found.2.position),
    place.fieldHolder? table name⟩

def meanings (table : SymbolTable) (names : List String) : List Meaning :=
  names.map (place.meaning table)

theorem fieldHolder?_bare (table : SymbolTable) (name : String) :
    place.fieldHolder? table.bare name = place.fieldHolder? table name := by
  unfold fieldHolder?
  rw [SymbolTable.resolve?_bare]
  cases place.enclosing <;> cases table.resolve? name <;> cases place.method <;> rfl

theorem meaning_bare (table : SymbolTable) (name : String) :
    place.meaning table.bare name = place.meaning table name := by
  rw [meaning, meaning, fieldHolder?_bare, SymbolTable.resolve?_bare, Option.map_map]
  rfl

theorem meaning_congr {table other : SymbolTable} {name : String}
    (h : other.bare.resolve? name = table.bare.resolve? name) :
    place.meaning other name = place.meaning table name := by
  rw [← meaning_bare, ← place.meaning_bare table, meaning, meaning, fieldHolder?, fieldHolder?, h]

theorem meaning_of_bare {table other : SymbolTable} (h : other.bare = table.bare)
    (name : String) : place.meaning other name = place.meaning table name :=
  place.meaning_congr (congrArg (·.resolve? name) h)

theorem meanings_of_bare {table other : SymbolTable} (h : other.bare = table.bare)
    (names : List String) : place.meanings other names = place.meanings table names :=
  List.map_congr_left fun name _ => place.meaning_of_bare h name

theorem meanings_append (table : SymbolTable) (names more : List String) :
    place.meanings table (names ++ more) =
      place.meanings table names ++ place.meanings table more := List.map_append

theorem meaning_extends {names : List String} {table after : SymbolTable}
    (h : table.Extends names after) {name : String} (hname : name ∉ names) :
    place.meaning after name = place.meaning table name :=
  place.meaning_congr (h.resolve? hname)

/-- Whether a table's innermost scope lies within the class around the place. -/
def Inside (table : SymbolTable) : Prop :=
  ∀ cls, place.enclosing = some cls → cls.fieldScope < table.enclosing.length

/-- A declaration in the innermost scope is no field of the class around it. -/
theorem meaning_bring_self {table : SymbolTable} (h : place.Inside table) (name : String)
    (symbol : Symbol) : place.meaning (table.bring name symbol) name =
      let declared := (table.current.lookup name).getD symbol
      ⟨name, some (declared.type, declared.position), none⟩ := by
  have hresolve := table.resolve?_bring_self name symbol
  have hholder : place.fieldHolder? (table.bring name symbol) name = none := by
    unfold fieldHolder?
    rw [hresolve]
    cases hclass : place.enclosing with
    | none => rfl
    | some cls =>
        cases place.method with
        | none => rfl
        | some kind => exact if_neg (Nat.ne_of_gt (h cls hclass))
  rw [meaning, hholder, hresolve]
  rfl

end Place

namespace SymbolTable

/-- The names mean the same in both tables, whose innermost scopes lie within the class around the
place. -/
structure Agree (place : Place) (names : List String) (table other : SymbolTable) : Prop where
  meaning : ∀ name ∈ names, place.meaning table name = place.meaning other name
  inside : place.Inside table
  insideOther : place.Inside other

/-- The innermost scopes of both tables have the same declarations of the names. -/
def Level (names : List String) (table other : SymbolTable) : Prop :=
  ∀ name ∈ names, table.bare.current.lookup name = other.bare.current.lookup name

/-- Two tables move on in the same way: both stay as they are, or both take up the same
declaration. -/
inductive Move (table other after otherAfter : SymbolTable) : Prop
  | stay (h : after.bare = table.bare) (hother : otherAfter.bare = other.bare)
  | declare (name : String) (symbol : Symbol) (h : after.bare = (table.bring name symbol).bare)
      (hother : otherAfter.bare = (other.bring name symbol).bare)

variable {place : Place} {names more : List String} {table other after otherAfter : SymbolTable}

theorem bare_enclosing_length (table : SymbolTable) :
    table.bare.enclosing.length = table.enclosing.length := List.length_map _

theorem depth_eq_of_bare (h : table.bare = other.bare) : table.depth = other.depth := by
  change table.enclosing.length + 1 = other.enclosing.length + 1
  rw [← bare_enclosing_length, h, bare_enclosing_length]

theorem inside_bare (h : place.Inside table) : place.Inside table.bare := fun cls hclass =>
  Nat.lt_of_lt_of_eq (h cls hclass) table.bare_enclosing_length.symm

theorem Extends.enclosing_length (h : table.Extends names after) :
    after.enclosing.length = table.enclosing.length := by
  obtain ⟨front, -, hafter⟩ := h
  rw [← bare_enclosing_length, hafter, bare_enclosing_length]

theorem Extends.inside (h : table.Extends names after) (hinside : place.Inside table) :
    place.Inside after := fun cls hclass => h.enclosing_length ▸ hinside cls hclass

theorem Extends.inside_enter (h : table.Extends names after) (hinside : place.Inside table.enter) :
    place.Inside after.enter := fun cls hclass =>
  Nat.lt_of_lt_of_eq (hinside cls hclass) (congrArg Nat.succ h.enclosing_length.symm)

theorem inside_enter (h : place.Inside table) : place.Inside table.enter := fun cls hclass =>
  Nat.lt_succ_of_lt (h cls hclass)

namespace Agree

theorem mono (h : Agree place names table other) (hsub : more ⊆ names) :
    Agree place more table other :=
  ⟨fun name hname => h.meaning name (hsub hname), h.inside, h.insideOther⟩

theorem enter (h : Agree place names table other) : Agree place names table.enter other :=
  ⟨h.meaning, inside_enter h.inside, h.insideOther⟩

theorem enterOther (h : Agree place names table other) : Agree place names table other.enter :=
  ⟨h.meaning, h.inside, inside_enter h.insideOther⟩

theorem extend (h : Agree place names table other) (hafter : table.Extends more after)
    (hfresh : ∀ name ∈ names, name ∉ more) : Agree place names after other :=
  ⟨fun name hname =>
      (place.meaning_extends hafter (hfresh name hname)).trans (h.meaning name hname),
    hafter.inside h.inside, h.insideOther⟩

theorem extendOther (h : Agree place names table other) (hafter : other.Extends more otherAfter)
    (hfresh : ∀ name ∈ names, name ∉ more) : Agree place names table otherAfter :=
  ⟨fun name hname =>
      (h.meaning name hname).trans (place.meaning_extends hafter (hfresh name hname)).symm,
    h.inside, hafter.inside h.insideOther⟩

theorem stay (h : Agree place names table other) (hafter : table.Extends [] after)
    (hother : other.Extends [] otherAfter) : Agree place names after otherAfter :=
  (h.extend hafter fun _ _ => List.not_mem_nil).extendOther hother fun _ _ => List.not_mem_nil

/-- Agreement does not depend on what has been assigned. -/
theorem behind (h : Agree place names table other) (hafter : after.bare = table.bare)
    (hother : otherAfter.bare = other.bare) : Agree place names after otherAfter :=
  h.stay (.of_bare hafter) (.of_bare hother)

theorem behindOther (h : Agree place names table other) (hother : otherAfter.bare = other.bare) :
    Agree place names table otherAfter := h.behind rfl hother

theorem meanings (h : Agree place names table other) (hsub : more ⊆ names) :
    place.meanings table more = place.meanings other more :=
  List.map_congr_left fun name hname => h.meaning name (hsub hname)

end Agree

namespace Level

theorem mono (h : Level names table other) (hsub : more ⊆ names) : Level more table other :=
  fun name hname => h name (hsub hname)

theorem enter : Level names table.enter other.enter := fun _ _ => rfl

theorem of_bare (h : table.bare = other.bare) (names : List String) : Level names table other :=
  fun _ _ => by rw [h]

end Level

theorem Agree.of_bare (h : table.bare = other.bare) (hinside : place.Inside table)
    (names : List String) : Agree place names table other where
  meaning := fun name _ => place.meaning_of_bare h name
  inside := hinside
  insideOther := fun cls hclass => by
    rw [← bare_enclosing_length, ← h, bare_enclosing_length]
    exact hinside cls hclass

namespace Move

theorem bare_eq (hmove : Move table other after otherAfter) (h : table.bare = other.bare) :
    after.bare = otherAfter.bare := by
  cases hmove with
  | stay hafter hother => rw [hafter, hother, h]
  | declare name symbol hafter hother => rw [hafter, hother, bare_bring, bare_bring, h]

/-- Tables that agree still do when both take up a declaration that neither or both had. -/
theorem agree (hmove : Move table other after otherAfter) (h : Agree place names table other)
    (hlevel : Level names table other) : Agree place names after otherAfter := by
  cases hmove with
  | stay hafter hother => exact h.stay (.of_bare hafter) (.of_bare hother)
  | declare name symbol hafter hother =>
      have hbring : Agree place names (table.bring name symbol) (other.bring name symbol) := by
        refine ⟨fun used hused => ?_, (Extends.bring ..).inside h.inside,
          (Extends.bring ..).inside h.insideOther⟩
        by_cases hname : used = name
        · rw [← hname, ← place.meaning_bare (table.bring ..), ← place.meaning_bare (other.bring ..),
            bare_bring, bare_bring, place.meaning_bring_self (inside_bare h.inside),
            place.meaning_bring_self (inside_bare h.insideOther), hlevel used hused]
        · have hne : used ∉ [name] := by simpa using hname
          rw [place.meaning_extends (.bring ..) hne, place.meaning_extends (.bring ..) hne]
          exact h.meaning used hused
      exact hbring.stay (.of_bare hafter) (.of_bare hother)

theorem level (hmove : Move table other after otherAfter) (hlevel : Level names table other) :
    Level names after otherAfter := by
  cases hmove with
  | stay hafter hother =>
      intro name hname
      rw [hafter, hother]
      exact hlevel name hname
  | declare name symbol hafter hother =>
      intro used hused
      rw [hafter, hother, bare_bring, bare_bring, lookup_bring, lookup_bring]
      split
      · next hname => rw [← hname, hlevel used hused]
      · exact hlevel used hused

end Move

end SymbolTable

end MiniJava
