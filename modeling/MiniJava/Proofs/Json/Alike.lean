import MiniJava.Json.TreeReader

/-!
# JSON values up to the order of members

Two values are alike if they differ in nothing but the order in which the members of objects stand.
A reader decodes a value that a node is encoded as if it gives the node back from every value that
is alike. Every value is alike to itself if no object in it has two members with one key.
-/

namespace MiniJava.Json

mutual

/-- The same value, but for the order of members. -/
def Alike (json : Json) : Json → Prop
  | array elements => ∃ list, json = array list ∧ AllAlike list elements
  | object members =>
    ∃ list, json = object list ∧ list.length = members.length ∧ AllFound list members
  | null => json = null
  | bool value => json = bool value
  | count value => json = count value
  | string value => json = string value

def AllAlike : List Json → List Json → Prop
  | [], [] => True
  | first :: rest, other :: others => Alike first other ∧ AllAlike rest others
  | _, _ => False

def AllFound (list : List (String × Json)) : List (String × Json) → Prop
  | [] => True
  | (key, value) :: others =>
    (∃ found, list.lookup key = some found ∧ Alike found value) ∧ AllFound list others

end

mutual

/-- No object in the value has two members with one key. -/
def Distinct : Json → Prop
  | array elements => AllDistinct elements
  | object members => (members.map Prod.fst).Nodup ∧ MembersDistinct members
  | null | bool _ | count _ | string _ => True

def AllDistinct : List Json → Prop
  | [] => True
  | first :: rest => first.Distinct ∧ AllDistinct rest

def MembersDistinct : List (String × Json) → Prop
  | [] => True
  | (_, value) :: rest => value.Distinct ∧ MembersDistinct rest

end

section Distinct

variable {key : String} {value : Json} {members : List (String × Json)}

@[simp] theorem distinct_null : null.Distinct := trivial

@[simp] theorem distinct_bool (b : Bool) : (bool b).Distinct := trivial

@[simp] theorem distinct_count (n : Nat) : (count n).Distinct := trivial

@[simp] theorem distinct_string (text : String) : (string text).Distinct := trivial

@[simp] theorem distinct_array {elements : List Json} :
    (array elements).Distinct ↔ ∀ element ∈ elements, element.Distinct := by
  rw [Distinct]
  induction elements with
  | nil => simp [AllDistinct]
  | cons first rest ih => simp [AllDistinct, ih]

@[simp] theorem distinct_nil : (object []).Distinct := ⟨List.nodup_nil, trivial⟩

@[simp] theorem distinct_cons : (object ((key, value) :: members)).Distinct ↔
    key ∉ members.map Prod.fst ∧ value.Distinct ∧ (object members).Distinct := by
  simp only [Distinct, MembersDistinct, List.map_cons, List.nodup_cons, and_assoc]
  rw [and_left_comm (a := value.Distinct)]

@[simp] theorem distinct_optional {α : Type} {encode : α → Json} {o : Option α} :
    (optional encode o).Distinct ↔ ∀ a ∈ o, (encode a).Distinct := by
  cases o <;> simp [optional]

end Distinct

theorem lookup_of_mem {members : List (String × Json)} (h : (members.map Prod.fst).Nodup)
    {key : String} {value : Json} (hmem : (key, value) ∈ members) :
    members.lookup key = some value := by
  induction members with
  | nil => cases hmem
  | cons member members ih =>
      obtain ⟨name, first⟩ := member
      obtain ⟨hname, hkeys⟩ := List.nodup_cons.mp h
      rcases List.mem_cons.mp hmem with hfirst | hrest
      · cases hfirst
        exact List.lookup_cons_self
      · have hne : key ≠ name := by
          rintro rfl
          exact hname (List.mem_map.mpr ⟨(key, value), hrest, rfl⟩)
        rw [List.lookup_cons, beq_false_of_ne hne]
        exact ih hkeys hrest

mutual

theorem Alike.refl : (json : Json) → json.Distinct → Alike json json
  | null, _ | bool _, _ | count _, _ | string _, _ => rfl
  | array elements, h => ⟨elements, rfl, AllAlike.refl elements h⟩
  | object members, h => ⟨members, rfl, rfl, AllFound.refl h.1 members (fun _ => id) h.2⟩

theorem AllAlike.refl : (elements : List Json) → AllDistinct elements → AllAlike elements elements
  | [], _ => trivial
  | first :: rest, h => ⟨Alike.refl first h.1, AllAlike.refl rest h.2⟩

theorem AllFound.refl {list : List (String × Json)} (hkeys : (list.map Prod.fst).Nodup) :
    (members : List (String × Json)) → members ⊆ list → MembersDistinct members →
      AllFound list members
  | [], _, _ => trivial
  | (key, value) :: rest, hsub, h => by
      obtain ⟨hmem, hsub⟩ := List.cons_subset.mp hsub
      exact ⟨⟨value, lookup_of_mem hkeys hmem, Alike.refl value h.1⟩,
        AllFound.refl hkeys rest hsub h.2⟩

end

def HasMember (json : Json) (key : String) (value : Json) : Prop :=
  ∃ found smaller, json.member? key = some ⟨found, smaller⟩ ∧ Alike found value

def Has (json : Json) : List (String × Json) → Prop
  | [] => True
  | (key, value) :: rest => json.HasMember key value ∧ json.Has rest

theorem exists_member?_of_lookup {members : List (String × Json)} {key : String} {value : Json}
    (h : members.lookup key = some value) :
    ∃ smaller, (object members).member? key = some ⟨value, smaller⟩ := by
  have hsmaller := sizeOf_lt_of_lookup h
  refine ⟨by simp only [object.sizeOf_spec]; omega, ?_⟩
  simp only [member?]
  split
  · next hnone =>
      rw [hnone] at h
      cases h
  · next found hfound =>
      obtain rfl := Option.some.inj (hfound.symm.trans h)
      rfl

theorem Alike.has {json : Json} {members : List (String × Json)}
    (h : Alike json (object members)) : json.Has members := by
  obtain ⟨list, rfl, -, hfound⟩ := h
  induction members with
  | nil => trivial
  | cons member members ih =>
      obtain ⟨⟨found, hlookup, halike⟩, hrest⟩ := hfound
      obtain ⟨smaller, hmember⟩ := exists_member?_of_lookup hlookup
      exact ⟨⟨found, smaller, hmember, halike⟩, ih hrest⟩

/-- Whatever is alike to the encoded value is read as the node. -/
def Decodes {α : Type} (read : Json → Option α) (encoded : Json) (node : α) : Prop :=
  ∀ json, Alike json encoded → read json = some node

section Decoding

variable {α : Type} {read : Json → Option α} {encode : α → Json} {node : α} {json : Json}
  {key : String} {value : Json}

theorem HasMember.read? (h : json.HasMember key value) (hread : Decodes read value node) :
    json.read? key read = some node := by
  obtain ⟨found, smaller, hmember, halike⟩ := h
  rw [Json.read?, hmember]
  exact hread found halike

theorem decodes_string (text : String) : Decodes string? (.string text) text := by
  rintro json rfl
  rfl

theorem decodes_count (n : Nat) : Decodes count? (.count n) n := by
  rintro json rfl
  rfl

theorem decodes_bool (b : Bool) : Decodes bool? (.bool b) b := by
  rintro json rfl
  rfl

/-- A label that is read back. -/
theorem decodes_label {text : String} {ofLabel? : String → Option α}
    (h : ofLabel? text = some node) :
    Decodes (fun json => json.string?.bind ofLabel?) (.string text) node := by
  rintro json rfl
  exact h

theorem ne_null_of_alike (h : Alike json value) (hne : value ≠ null) : json ≠ null := by
  rintro rfl
  cases value with
  | null => exact hne rfl
  | bool b => cases h
  | count n => cases h
  | string s => cases h
  | array elements =>
      obtain ⟨list, hlist, -⟩ := h
      cases hlist
  | object members =>
      obtain ⟨list, hlist, -⟩ := h
      cases hlist

theorem decodes_optional (hne : ∀ a, encode a ≠ null) : (o : Option α) →
    (∀ a ∈ o, Decodes read (encode a) a) → Decodes (optional? read) (optional encode o) o
  | none, _ => by
      rintro json rfl
      rfl
  | some a, h => by
      intro json halike
      have hnull := ne_null_of_alike halike (hne a)
      have hread := h a rfl json halike
      unfold optional?
      split
      · exact absurd rfl hnull
      · rw [hread]
        rfl

theorem mapM_of_allAlike {list : List Json} {nodes : List α}
    (h : ∀ a ∈ nodes, Decodes read (encode a) a) (halike : AllAlike list (nodes.map encode)) :
    list.mapM read = some nodes := by
  induction nodes generalizing list with
  | nil =>
      cases list with
      | nil => rfl
      | cons first rest => exact halike.elim
  | cons a nodes ih =>
      rw [List.forall_mem_cons] at h
      cases list with
      | nil => exact halike.elim
      | cons first rest =>
          rw [List.mapM_cons, h.1 first halike.1, ih h.2 halike.2]
          rfl

theorem elements?_mapM (read : Json → Option α) (list : List Json) :
    ((array list).elements?.bind fun elements => elements.mapM fun element => read element.1) =
      list.mapM read := by
  simp only [elements?, Option.bind_some]
  simp

theorem decodes_list (nodes : List α) (h : ∀ a ∈ nodes, Decodes read (encode a) a) :
    Decodes (list? read) (.array (nodes.map encode)) nodes := by
  intro json halike
  obtain ⟨list, rfl, hlist⟩ := halike
  rw [list?, elements?_mapM]
  exact mapM_of_allAlike h hlist

end Decoding

end MiniJava.Json
