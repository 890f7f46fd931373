/-!
# JSON values

Values with the members of objects in a fixed order. The only numbers are counts. A look-up gives a
value that is smaller than the one it is in, so readers of nested values come to an end.
-/

namespace MiniJava

inductive Json where
  | null
  | bool (value : Bool)
  | count (value : Nat)
  | string (value : String)
  | array (elements : List Json)
  | object (members : List (String × Json))
deriving Repr, Inhabited

namespace Json

theorem sizeOf_lt_of_lookup {key : String} {value : Json} :
    ∀ {members : List (String × Json)}, members.lookup key = some value →
      sizeOf value < sizeOf members
  | [], h => by simp at h
  | (name, first) :: rest, h => by
    rw [List.lookup_cons] at h
    split at h
    · cases h
      simp only [List.cons.sizeOf_spec, Prod.mk.sizeOf_spec]
      omega
    · have := sizeOf_lt_of_lookup h
      simp only [List.cons.sizeOf_spec]
      omega

/-- The member of an object under a key. -/
def member? (json : Json) (key : String) : Option { value : Json // sizeOf value < sizeOf json } :=
  match json with
  | object members =>
    match found : members.lookup key with
    | none => none
    | some value => some ⟨value, by
        have := sizeOf_lt_of_lookup found
        simp only [object.sizeOf_spec]
        omega⟩
  | _ => none

def elements? (json : Json) : Option (List { value : Json // sizeOf value < sizeOf json }) :=
  match json with
  | array elements => some (elements.attach.map fun element => ⟨element.1, by
      have := List.sizeOf_lt_of_mem element.2
      simp only [array.sizeOf_spec]
      omega⟩)
  | _ => none

def string? : Json → Option String
  | string value => some value
  | _ => none

def count? : Json → Option Nat
  | count value => some value
  | _ => none

def bool? : Json → Option Bool
  | bool value => some value
  | _ => none

/-- A value that may be absent. -/
def optional {α : Type} (encode : α → Json) : Option α → Json
  | none => null
  | some value => encode value

end Json

end MiniJava
