import MiniJava.Proofs.Scope.Extends

/-!
# Scopes of nested classes

Inside the methods of a class every class around them has a scope with its fields, and behind these
scopes is only the outermost one. So the number of the scope that declares a name tells whether the
name means a field, and of which of the classes.
-/

namespace MiniJava

/-- The first field with a name; a second one would be declared twice. -/
def fieldNamed? (name : String) : List Member → Option VarDecl
  | [] => none
  | .field decl :: rest => if decl.name = name then some decl else fieldNamed? name rest
  | .method _ :: rest => fieldNamed? name rest
  | .nested _ :: rest => fieldNamed? name rest

theorem name_of_fieldNamed {name : String} {members : List Member} {decl : VarDecl}
    (h : fieldNamed? name members = some decl) : decl.name = name := by
  fun_induction fieldNamed? name members with
  | case1 => cases h
  | case2 first rest heq =>
      cases h
      exact heq
  | case3 first rest hne ih => exact ih h
  | case4 method rest ih => exact ih h
  | case5 nested rest ih => exact ih h

def VarDecl.bareSymbol (decl : VarDecl) : Symbol :=
  ⟨.ofTypeName decl.type, decl.position, true, false⟩

namespace SymbolTable

inductive Nest : List Scope → List ClassDecl → Prop
  | outermost (scope : Scope) : Nest [scope] []
  | within {scope : Scope} {outer : List Scope} {decl : ClassDecl} {classes : List ClassDecl}
      (hfields : ∀ name,
        scope.lookup name = (fieldNamed? name decl.members).map VarDecl.bareSymbol) :
      Nest outer classes → Nest (scope :: outer) (decl :: classes)

theorem Nest.length {scopes : List Scope} {classes : List ClassDecl} (h : Nest scopes classes) :
    scopes.length = classes.length + 1 := by
  induction h with
  | outermost scope => rfl
  | within _ _ ih => rw [List.length_cons, ih, List.length_cons]

/-- A declaration in one of the outer scopes is found there. -/
theorem resolveIn_outer {name : String} {front scopes : List Scope} {number : Nat}
    {symbol : Symbol} (h : resolveIn name (front ++ scopes) = some (number, symbol))
    (hnumber : number < scopes.length) : resolveIn name scopes = some (number, symbol) := by
  induction front with
  | nil => exact h
  | cons scope front ih =>
      rw [List.cons_append, resolveIn] at h
      cases hlookup : scope.lookup name with
      | none =>
          rw [hlookup] at h
          exact ih h
      | some found =>
          rw [hlookup] at h
          obtain ⟨rfl, -⟩ := Prod.mk.inj (Option.some.inj h)
          rw [List.length_append] at hnumber
          omega

/-- What is declared in the scope of a class is the field that the class has for the name. -/
theorem Nest.exists_field {name : String} {scopes : List Scope} {classes : List ClassDecl}
    (hnest : Nest scopes classes) {number : Nat} {symbol : Symbol}
    (h : resolveIn name scopes = some (number, symbol)) (hnumber : 0 < number) :
    number ≤ classes.length ∧ ∃ owner decl, classes[classes.length - number]? = some owner ∧
      fieldNamed? name owner.members = some decl ∧ symbol = decl.bareSymbol := by
  induction hnest with
  | outermost scope =>
      rw [resolveIn] at h
      cases hlookup : scope.lookup name with
      | none =>
          rw [hlookup] at h
          cases h
      | some found =>
          rw [hlookup] at h
          cases h
          cases hnumber
  | @within scope outer owner classes hfields hnest ih =>
      have hlength := hnest.length
      rw [resolveIn] at h
      cases hlookup : scope.lookup name with
      | none =>
          rw [hlookup] at h
          obtain ⟨hle, found, decl, howner, hdecl, hsymbol⟩ := ih h
          refine ⟨Nat.le_succ_of_le hle, found, decl, ?_, hdecl, hsymbol⟩
          rw [List.length_cons, Nat.succ_sub hle]
          exact howner
      | some found =>
          rw [hlookup] at h
          obtain ⟨rfl, rfl⟩ := Prod.mk.inj (Option.some.inj h)
          rw [hfields] at hlookup
          obtain ⟨decl, hdecl, hsymbol⟩ := Option.map_eq_some_iff.mp hlookup
          refine ⟨Nat.le_of_eq hlength, owner, decl, ?_, hdecl, hsymbol.symm⟩
          rw [hlength, List.length_cons, Nat.sub_self]
          rfl

end SymbolTable

end MiniJava
