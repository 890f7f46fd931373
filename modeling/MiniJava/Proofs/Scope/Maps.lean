import Mathlib.Data.Finmap
import MiniJava.Proofs.Scope.Cells
import MiniJava.Scope.Session

/-!
# Symbol tables as stacks of finite maps

The reference of a symbol table is a stack of finite maps, the innermost first, with the steps that
an action may make on it. A session answers as the reference does and has the same maps behind every
action. Between an `enter` and its `leave` nothing happens to the maps around it but that some of
their declarations are marked as assigned.
-/

namespace MiniJava

abbrev Bindings := Finmap fun _ : String => Symbol

namespace Bindings

/-- Some declarations have been marked as assigned, and nothing else has changed. -/
def Marks (map after : Bindings) : Prop :=
  ∀ name, after.lookup name = map.lookup name ∨
    after.lookup name = (map.lookup name).map Symbol.marked

/-- Some declarations have been marked as assigned, and further names may have been declared. -/
def Grows (map after : Bindings) : Prop :=
  ∀ name symbol, map.lookup name = some symbol →
    after.lookup name = some symbol ∨ after.lookup name = some symbol.marked

variable {map between after : Bindings} {name : String} {symbol : Symbol}

theorem Marks.refl (map : Bindings) : map.Marks map := fun _ => .inl rfl

theorem Marks.trans (h : map.Marks between) (hafter : between.Marks after) : map.Marks after := by
  intro name
  rcases h name with h | h <;> rcases hafter name with hafter | hafter <;> rw [hafter, h]
  · exact .inl rfl
  · exact .inr rfl
  · exact .inr rfl
  · exact .inr (by rw [Option.map_map]; rfl)

theorem Marks.grows (h : map.Marks after) : map.Grows after := by
  intro name symbol hsymbol
  have hname := h name
  rwa [hsymbol] at hname

theorem Grows.trans (h : map.Grows between) (hafter : between.Grows after) : map.Grows after := by
  intro name symbol hsymbol
  rcases h name symbol hsymbol with h | h
  · exact hafter name symbol h
  · exact .inr ((hafter name symbol.marked h).elim id id)

theorem marks_insert (h : map.lookup name = some symbol) :
    map.Marks (map.insert name symbol.marked) := by
  intro used
  by_cases hused : used = name
  · rw [hused, Finmap.lookup_insert, h]
    exact .inr rfl
  · exact .inl (Finmap.lookup_insert_of_ne _ hused)

theorem grows_insert (h : name ∉ map) : map.Grows (map.insert name symbol) := by
  intro used found hfound
  have hused : used ≠ name := fun heq => h (heq ▸ Finmap.mem_iff.mpr ⟨found, hfound⟩)
  exact .inl ((Finmap.lookup_insert_of_ne _ hused).trans hfound)

end Bindings

abbrev MapStack := List Bindings

namespace MapStack

open SymbolTable (Action Answer)

structure Innermost (maps : MapStack) (name : String) (inner : List Bindings) (found : Bindings)
    (outer : List Bindings) (symbol : Symbol) : Prop where
  split : maps = inner ++ found :: outer
  missing : ∀ map ∈ inner, name ∉ map
  binding : found.lookup name = some symbol

inductive Step : MapStack → Action → Answer → MapStack → Prop where
  | enter {maps} : Step maps .enter .done (∅ :: maps)
  | leave {map outer rest} : Step (map :: outer :: rest) .leave .done (outer :: rest)
  | stay {map} : Step [map] .leave .done [map]
  | declared {map rest name symbol} (h : name ∉ map) :
      Step (map :: rest) (.declare name symbol) .declared (map.insert name symbol :: rest)
  | taken {map rest name symbol first} (h : map.lookup name = some first) :
      Step (map :: rest) (.declare name symbol) (.taken first.position) (map :: rest)
  | found {maps name inner map outer symbol} (h : Innermost maps name inner map outer symbol) :
      Step maps (.lookup name) (.found (some symbol)) maps
  | notFound {maps name} (h : ∀ map ∈ maps, name ∉ map) :
      Step maps (.lookup name) (.found none) maps
  | resolved {maps name inner map outer symbol} (h : Innermost maps name inner map outer symbol) :
      Step maps (.resolve name) (.resolved (some (outer.length, symbol))) maps
  | notResolved {maps name} (h : ∀ map ∈ maps, name ∉ map) :
      Step maps (.resolve name) (.resolved none) maps
  | marked {maps name inner map outer symbol} (h : Innermost maps name inner map outer symbol) :
      Step maps (.mark name) (.marked true) (inner ++ map.insert name symbol.marked :: outer)
  | notMarked {maps name} (h : ∀ map ∈ maps, name ∉ map) :
      Step maps (.mark name) (.marked false) maps

/-- The answers to a sequence of actions, each with the maps behind it. -/
inductive Run : MapStack → List Action → List (Answer × MapStack) → Prop where
  | nil {maps} : Run maps [] []
  | cons {maps action answer next rest outcomes} (h : Step maps action answer next)
      (hrest : Run next rest outcomes) : Run maps (action :: rest) ((answer, next) :: outcomes)

theorem Innermost.unique {maps : MapStack} {name : String} {inner other : List Bindings}
    {found first : Bindings} {outer around : List Bindings} {symbol meant : Symbol}
    (h : Innermost maps name inner found outer symbol)
    (hother : Innermost maps name other first around meant) :
    inner = other ∧ found = first ∧ outer = around ∧ symbol = meant := by
  have hfound : name ∈ found := Finmap.mem_iff.mpr ⟨symbol, h.binding⟩
  have hfirst : name ∈ first := Finmap.mem_iff.mpr ⟨meant, hother.binding⟩
  obtain ⟨between, hinner, houter⟩ | ⟨between, hinner, houter⟩ :=
    List.append_eq_append_iff.mp (h.split.symm.trans hother.split)
  · cases between with
    | nil =>
        obtain ⟨rfl, rfl⟩ := List.cons_eq_cons.mp houter
        exact ⟨by simpa using hinner.symm, rfl, rfl,
          Option.some_inj.mp (h.binding.symm.trans hother.binding)⟩
    | cons map more =>
        obtain ⟨rfl, -⟩ := List.cons_eq_cons.mp houter
        exact absurd hfound (hother.missing _ (by simp [hinner]))
  · cases between with
    | nil =>
        obtain ⟨rfl, rfl⟩ := List.cons_eq_cons.mp houter
        exact ⟨by simpa using hinner, rfl, rfl,
          Option.some_inj.mp (h.binding.symm.trans hother.binding)⟩
    | cons map more =>
        obtain ⟨rfl, -⟩ := List.cons_eq_cons.mp houter
        exact absurd hfirst (h.missing _ (by simp [hinner]))

theorem Innermost.exists_mem {maps : MapStack} {name : String} {inner outer : List Bindings}
    {found : Bindings} {symbol : Symbol} (h : Innermost maps name inner found outer symbol) :
    ¬ ∀ map ∈ maps, name ∉ map :=
  fun hnone => hnone found (by simp [h.split]) (Finmap.mem_iff.mpr ⟨symbol, h.binding⟩)

/-- The maps and the action determine the answer and the maps behind it. -/
theorem Step.unique {maps next other : MapStack} {action : Action} {answer reply : Answer}
    (h : Step maps action answer next) (hother : Step maps action reply other) :
    answer = reply ∧ next = other := by
  cases h with
  | enter => cases hother; exact ⟨rfl, rfl⟩
  | leave => cases hother; exact ⟨rfl, rfl⟩
  | stay => cases hother; exact ⟨rfl, rfl⟩
  | declared h =>
      cases hother with
      | declared => exact ⟨rfl, rfl⟩
      | taken hfirst => exact absurd (Finmap.mem_iff.mpr ⟨_, hfirst⟩) h
  | taken h =>
      cases hother with
      | declared hnone => exact absurd (Finmap.mem_iff.mpr ⟨_, h⟩) hnone
      | taken hfirst =>
          cases h.symm.trans hfirst
          exact ⟨rfl, rfl⟩
  | found h =>
      cases hother with
      | found hfound =>
          obtain ⟨-, -, -, rfl⟩ := h.unique hfound
          exact ⟨rfl, rfl⟩
      | notFound hnone => exact absurd hnone h.exists_mem
  | notFound h =>
      cases hother with
      | found hfound => exact absurd h hfound.exists_mem
      | notFound => exact ⟨rfl, rfl⟩
  | resolved h =>
      cases hother with
      | resolved hfound =>
          obtain ⟨-, -, rfl, rfl⟩ := h.unique hfound
          exact ⟨rfl, rfl⟩
      | notResolved hnone => exact absurd hnone h.exists_mem
  | notResolved h =>
      cases hother with
      | resolved hfound => exact absurd h hfound.exists_mem
      | notResolved => exact ⟨rfl, rfl⟩
  | marked h =>
      cases hother with
      | marked hfound =>
          obtain ⟨rfl, rfl, rfl, rfl⟩ := h.unique hfound
          exact ⟨rfl, rfl⟩
      | notMarked hnone => exact absurd hnone h.exists_mem
  | notMarked h =>
      cases hother with
      | marked hfound => exact absurd h hfound.exists_mem
      | notMarked => exact ⟨rfl, rfl⟩

theorem Run.unique {maps : MapStack} {actions : List Action}
    {outcomes other : List (Answer × MapStack)} (h : Run maps actions outcomes)
    (hother : Run maps actions other) : outcomes = other := by
  induction h generalizing other with
  | nil =>
      cases hother
      rfl
  | cons hstep _ ih =>
      cases hother with
      | cons hfirst hrest =>
          obtain ⟨rfl, rfl⟩ := hstep.unique hfirst
          rw [ih hrest]

/-- The innermost map has grown, and the maps around it have only been marked. -/
inductive Grows : MapStack → MapStack → Prop where
  | intro {map after : Bindings} {rest behind : List Bindings} (h : map.Grows after)
      (hrest : List.Forall₂ Bindings.Marks rest behind) : Grows (map :: rest) (after :: behind)

theorem marks_refl (maps : MapStack) : List.Forall₂ Bindings.Marks maps maps :=
  List.forall₂_same.mpr fun map _ => .refl map

theorem marks_trans {maps between after : MapStack} (h : List.Forall₂ Bindings.Marks maps between)
    (hafter : List.Forall₂ Bindings.Marks between after) :
    List.Forall₂ Bindings.Marks maps after := by
  induction h generalizing after with
  | nil => exact hafter
  | cons hfirst _ ih =>
      cases hafter with
      | cons hlast hrest => exact .cons (hfirst.trans hlast) (ih hrest)

theorem Grows.trans {maps between after : MapStack} (h : Grows maps between)
    (hafter : Grows between after) : Grows maps after := by
  obtain ⟨hmap, hrest⟩ := h
  obtain ⟨hlast, hbehind⟩ := hafter
  exact ⟨hmap.trans hlast, marks_trans hrest hbehind⟩

theorem grows_of_marks {map : Bindings} {rest after : List Bindings}
    (h : List.Forall₂ Bindings.Marks (map :: rest) after) : Grows (map :: rest) after := by
  cases h with
  | cons hfirst hrest => exact ⟨hfirst.grows, hrest⟩

/-- An action that neither enters nor leaves a scope keeps the scopes. -/
theorem Step.grows {map : Bindings} {rest next : MapStack} {action : Action} {answer : Answer}
    (h : Step (map :: rest) action answer next) (henter : action ≠ .enter)
    (hleave : action ≠ .leave) : Grows (map :: rest) next := by
  cases h with
  | enter => exact absurd rfl henter
  | leave => exact absurd rfl hleave
  | stay => exact absurd rfl hleave
  | declared h => exact ⟨Bindings.grows_insert h, marks_refl rest⟩
  | marked h =>
      refine grows_of_marks ?_
      rw [h.split]
      exact List.rel_append (marks_refl _) (.cons (Bindings.marks_insert h.binding) (marks_refl _))
  | taken | found | notFound | resolved | notResolved | notMarked =>
      exact grows_of_marks (marks_refl _)

end MapStack

def Scope.bindings (scope : Scope) : Bindings :=
  scope.foldr (fun entry map => map.insert entry.1 entry.2) ∅

namespace Scope

variable {scope : Scope} {name : String} {symbol : Symbol}

theorem lookup_bindings (scope : Scope) (name : String) :
    scope.bindings.lookup name = scope.lookup name := by
  induction scope with
  | nil => exact Finmap.lookup_empty name
  | cons entry rest ih =>
      change (Finmap.insert entry.1 entry.2 (bindings rest)).lookup name = _
      rw [List.lookup_cons]
      by_cases hname : name = entry.1
      · rw [hname, Finmap.lookup_insert, beq_self_eq_true]
      · rw [Finmap.lookup_insert_of_ne _ hname, ih, beq_false_of_ne hname]

theorem not_mem_bindings : name ∉ scope.bindings ↔ scope.lookup name = none := by
  rw [← Finmap.lookup_eq_none, lookup_bindings]

theorem bindings_mark (h : scope.lookup name = some symbol) :
    (scope.mark name).bindings = scope.bindings.insert name symbol.marked := by
  refine Finmap.ext_lookup fun used => ?_
  rw [lookup_bindings, lookup_mark]
  by_cases hused : used = name
  · rw [if_pos hused, hused, h, Finmap.lookup_insert]
    rfl
  · rw [if_neg hused, Finmap.lookup_insert_of_ne _ hused, lookup_bindings]

end Scope

namespace SymbolTable

def maps (table : SymbolTable) : MapStack := table.scopes.map Scope.bindings

theorem maps_cons (table : SymbolTable) :
    table.maps = table.current.bindings :: table.enclosing.map Scope.bindings := rfl

/-- The innermost scope that has a name is the one that the name resolves to. -/
theorem exists_innermost {name : String} {number : Nat} {symbol : Symbol} {scopes : List Scope}
    (h : resolveIn name scopes = some (number, symbol)) : ∃ inner map outer,
      MapStack.Innermost (scopes.map Scope.bindings) name inner map outer symbol ∧
        outer.length = number ∧ (markIn name scopes).map Scope.bindings =
          inner ++ map.insert name symbol.marked :: outer := by
  induction scopes with
  | nil => cases h
  | cons scope rest ih =>
      rw [resolveIn] at h
      rw [markIn]
      cases hlookup : scope.lookup name with
      | some found =>
          rw [hlookup] at h
          cases h
          refine ⟨[], scope.bindings, rest.map Scope.bindings, ⟨rfl, List.forall_mem_nil _, ?_⟩,
            List.length_map _, ?_⟩
          · rw [Scope.lookup_bindings, hlookup]
          · rw [if_pos Option.isSome_some, List.map_cons, Scope.bindings_mark hlookup]
            rfl
      | none =>
          rw [hlookup] at h
          obtain ⟨inner, map, outer, ⟨hsplit, hmissing, hbinding⟩, hnumber, hmarked⟩ := ih h
          refine ⟨scope.bindings :: inner, map, outer, ⟨?_, ?_, hbinding⟩, hnumber, ?_⟩
          · rw [List.map_cons, hsplit, List.cons_append]
          · exact List.forall_mem_cons.mpr ⟨Scope.not_mem_bindings.mpr hlookup, hmissing⟩
          · rw [if_neg (by simp), List.map_cons, hmarked, List.cons_append]

theorem missing_of_resolveIn {name : String} {scopes : List Scope}
    (h : resolveIn name scopes = none) :
    (∀ map ∈ scopes.map Scope.bindings, name ∉ map) ∧ markIn name scopes = scopes := by
  induction scopes with
  | nil => exact ⟨nofun, rfl⟩
  | cons scope rest ih =>
      rw [resolveIn] at h
      rw [markIn]
      cases hlookup : scope.lookup name with
      | some found =>
          rw [hlookup] at h
          cases h
      | none =>
          rw [hlookup] at h
          obtain ⟨hmissing, hsame⟩ := ih h
          rw [if_neg (by simp), hsame]
          exact ⟨List.forall_mem_cons.mpr ⟨Scope.not_mem_bindings.mpr hlookup, hmissing⟩, rfl⟩

/-- An action on a table is a step of the reference. -/
theorem step_perform (table : SymbolTable) (action : Action) :
    MapStack.Step table.maps action (table.perform action).1 (table.perform action).2.maps := by
  cases action with
  | enter => exact .enter
  | leave =>
      obtain ⟨current, enclosing⟩ := table
      cases enclosing with
      | nil => exact .stay
      | cons outer rest => exact .leave
  | declare name symbol =>
      rw [perform, declare]
      cases hlookup : table.current.lookup name with
      | none => exact .declared (Scope.not_mem_bindings.mpr hlookup)
      | some first => exact .taken ((Scope.lookup_bindings ..).trans hlookup)
  | lookup name =>
      cases hresolve : table.resolve? name with
      | none =>
          rw [perform, lookup?, hresolve]
          exact .notFound (missing_of_resolveIn hresolve).1
      | some result =>
          obtain ⟨inner, map, outer, hinnermost, -⟩ := exists_innermost hresolve
          rw [perform, lookup?, hresolve]
          exact .found hinnermost
  | resolve name =>
      cases hresolve : table.resolve? name with
      | none =>
          rw [perform, hresolve]
          exact .notResolved (missing_of_resolveIn hresolve).1
      | some result =>
          obtain ⟨inner, map, outer, hinnermost, hnumber, -⟩ := exists_innermost hresolve
          obtain ⟨number, symbol⟩ := result
          cases hnumber
          rw [perform, hresolve]
          exact .resolved hinnermost
  | mark name =>
      rw [perform, maps, maps, scopes_markInitialized, lookup?]
      cases hresolve : table.resolve? name with
      | none =>
          obtain ⟨hmissing, hsame⟩ := missing_of_resolveIn hresolve
          rw [hsame]
          exact .notMarked hmissing
      | some result =>
          obtain ⟨inner, map, outer, hinnermost, -, hmarked⟩ := exists_innermost hresolve
          rw [hmarked]
          exact .marked hinnermost

theorem run_session (table : SymbolTable) (actions : List Action) :
    MapStack.Run table.maps actions
      ((table.session actions).map fun outcome => (outcome.1, outcome.2.maps)) := by
  induction actions generalizing table with
  | nil => exact .nil
  | cons action rest ih => exact .cons (table.step_perform action) (ih _)

section SameMaps

variable {table other : SymbolTable} {name : String} {symbol : Symbol}

/-- Tables with the same maps answer alike and have the same maps behind every action. -/
theorem perform_congr (h : table.maps = other.maps) (action : Action) :
    (table.perform action).1 = (other.perform action).1 ∧
      (table.perform action).2.maps = (other.perform action).2.maps := by
  have hother := other.step_perform action
  rw [← h] at hother
  exact (table.step_perform action).unique hother

theorem lookup?_congr (h : table.maps = other.maps) (name : String) :
    table.lookup? name = other.lookup? name :=
  Answer.found.inj (perform_congr h (.lookup name)).1

theorem lookup?_of_innermost {inner : List Bindings} {map : Bindings} {outer : List Bindings}
    (h : MapStack.Innermost table.maps name inner map outer symbol) :
    table.lookup? name = some symbol :=
  Answer.found.inj ((table.step_perform (.lookup name)).unique (.found h)).1

/-- Marking replaces the binding that the name means. -/
theorem exists_marked (h : table.lookup? name = some symbol) : ∃ inner map outer,
    MapStack.Innermost table.maps name inner map outer symbol ∧
      (table.markInitialized name).maps = inner ++ map.insert name symbol.marked :: outer := by
  obtain ⟨⟨number, found⟩, hresolve, rfl⟩ := Option.map_eq_some_iff.mp h
  obtain ⟨inner, map, outer, hinnermost, -, hmarked⟩ := exists_innermost hresolve
  refine ⟨inner, map, outer, hinnermost, ?_⟩
  rw [maps, scopes_markInitialized]
  exact hmarked

theorem lookup?_marked (h : table.lookup? name = some symbol) :
    (table.markInitialized name).lookup? name = some symbol.marked := by
  obtain ⟨inner, map, outer, hinnermost, hmarked⟩ := exists_marked h
  exact lookup?_of_innermost ⟨hmarked, hinnermost.missing, Finmap.lookup_insert _⟩

/-- Marking changes the maps exactly if the name has not been assigned yet. -/
theorem maps_markInitialized (h : table.lookup? name = some symbol) :
    (table.markInitialized name).maps = table.maps ↔ symbol.initialized = true := by
  obtain ⟨inner, map, outer, hinnermost, hmarked⟩ := exists_marked h
  constructor
  · intro hsame
    have hlookup := (lookup?_marked h).symm.trans (lookup?_congr hsame name)
    rw [h, Option.some_inj] at hlookup
    exact (congrArg Symbol.initialized hlookup).symm
  · intro hinitialized
    have hsymbol : symbol.marked = symbol := by
      rw [Symbol.marked, ← hinitialized]
    have hmap : map.insert name symbol = map := by
      refine Finmap.ext_lookup fun used => ?_
      by_cases hused : used = name
      · rw [hused, Finmap.lookup_insert, hinnermost.binding]
      · exact Finmap.lookup_insert_of_ne _ hused
    rw [hmarked, hinnermost.split, hsymbol, hmap]

end SameMaps

/-- Every `leave` belongs to an `enter` in front of it, and every `enter` has its `leave`. -/
inductive Balanced : List Action → Prop where
  | nil : Balanced []
  | plain {action rest} (henter : action ≠ .enter) (hleave : action ≠ .leave)
      (hrest : Balanced rest) : Balanced (action :: rest)
  | scope {inner rest} (hinner : Balanced inner) (hrest : Balanced rest) :
      Balanced (.enter :: (inner ++ .leave :: rest))

theorem Balanced.append {actions more : List Action} (h : Balanced actions)
    (hmore : Balanced more) : Balanced (actions ++ more) := by
  induction h with
  | nil => exact hmore
  | plain henter hleave _ ih => exact .plain henter hleave ih
  | scope hinner _ _ ihRest =>
      rw [List.cons_append, List.append_assoc, List.cons_append]
      exact .scope hinner ihRest

/-- The table behind a sequence of actions. -/
def afterAll (table : SymbolTable) (actions : List Action) : SymbolTable :=
  actions.foldl (fun table action => (table.perform action).2) table

theorem afterAll_append (table : SymbolTable) (actions more : List Action) :
    table.afterAll (actions ++ more) = (table.afterAll actions).afterAll more :=
  List.foldl_append

theorem maps_leave {map : Bindings} {rest : MapStack} {table : SymbolTable} (hrest : rest ≠ [])
    (h : table.maps = map :: rest) : table.leave.maps = rest := by
  obtain ⟨current, enclosing⟩ := table
  obtain ⟨-, rfl⟩ := List.cons_eq_cons.mp h
  cases enclosing with
  | nil => exact absurd rfl hrest
  | cons outer around => rfl

/-- Where the segment inside keeps the scopes, entering and leaving only marks. -/
theorem marks_scope {table inner : SymbolTable}
    (h : MapStack.Grows table.enter.maps inner.maps) :
    List.Forall₂ Bindings.Marks table.maps inner.leave.maps := by
  have hmaps : table.enter.maps = ∅ :: table.maps := rfl
  rw [hmaps] at h
  generalize hafter : inner.maps = after at h
  cases h with
  | intro _ hrest =>
      rwa [maps_leave (fun hnil => ?_) hafter]
      rw [hnil, maps_cons] at hrest
      cases hrest

theorem afterAll_scope (table : SymbolTable) (inner rest : List Action) :
    table.afterAll (.enter :: (inner ++ .leave :: rest)) =
      (table.enter.afterAll inner).leave.afterAll rest := by
  rw [afterAll, List.foldl_cons, List.foldl_append]
  rfl

theorem grows_balanced {actions : List Action} (h : Balanced actions) (table : SymbolTable) :
    MapStack.Grows table.maps (table.afterAll actions).maps := by
  induction h generalizing table with
  | nil => exact MapStack.grows_of_marks (MapStack.marks_refl _)
  | plain henter hleave _ ih =>
      exact ((table.step_perform _).grows henter hleave).trans (ih _)
  | scope _ _ ihInner ihRest =>
      rw [afterAll_scope]
      have hmarks := marks_scope (ihInner table.enter)
      exact (MapStack.grows_of_marks hmarks).trans (ihRest _)

/-- A second declaration in the scope is answered with the position of the first. -/
theorem taken_of_declared {table : SymbolTable} {name : String} {symbol : Symbol}
    (h : (table.perform (.declare name symbol)).1 = .declared) {between : List Action}
    (hbetween : Balanced between) (other : Symbol) :
    ((table.afterAll (.declare name symbol :: between)).perform (.declare name other)).1 =
      .taken symbol.position := by
  cases hlookup : table.current.lookup name with
  | some first =>
      rw [perform, declare, hlookup] at h
      cases h
  | none =>
      have hfirst : (table.perform (.declare name symbol)).2 =
          ⟨(name, symbol) :: table.current, table.enclosing⟩ := by
        rw [perform, declare, hlookup]
      have hgrows := grows_balanced hbetween (table.perform (.declare name symbol)).2
      rw [afterAll, List.foldl_cons, ← afterAll]
      generalize (table.perform (.declare name symbol)).2.afterAll between = last at hgrows ⊢
      rw [hfirst, maps_cons, maps_cons] at hgrows
      have hbinding : (Scope.bindings ((name, symbol) :: table.current)).lookup name =
          some symbol := by
        rw [Scope.lookup_bindings, List.lookup_cons_self]
      cases hgrows with
      | intro hlast _ =>
          rw [perform, declare]
          have hposition := hlast name symbol hbinding
          rw [Scope.lookup_bindings] at hposition
          rcases hposition with hfound | hfound <;> simp only [hfound, Symbol.marked]

/-- A session is a run of the reference, which determines its outcomes. No action leaves the
outermost scope. A balanced segment between an `enter` and a `leave` only marks, and a name that has
been declared stays declared, where it was, until its scope is left. -/
theorem session_refines_maps (actions : List Action) :
    (∀ outcomes, MapStack.Run [∅] actions outcomes ↔
      outcomes = (empty.session actions).map fun outcome => (outcome.1, outcome.2.maps)) ∧
    (∀ outcome ∈ empty.session actions,
      outcome.2.depth = outcome.2.maps.length ∧ 1 ≤ outcome.2.depth ∧
        (outcome.2.depth = 1 → outcome.2.leave = outcome.2)) ∧
    (∀ inner, Balanced inner → List.Forall₂ Bindings.Marks (empty.afterAll actions).maps
      (empty.afterAll (actions ++ .enter :: (inner ++ [.leave]))).maps) ∧
    (∀ name symbol other between, Balanced between →
      ((empty.afterAll actions).perform (.declare name symbol)).1 = .declared →
        ((empty.afterAll (actions ++ .declare name symbol :: between)).perform
          (.declare name other)).1 = .taken symbol.position) := by
  refine ⟨fun outcomes => ⟨fun h => h.unique (empty.run_session actions), ?_⟩,
    fun outcome _ => ⟨(List.length_map _).symm, outcome.2.depth_pos, fun hdepth => ?_⟩,
    fun inner hinner => ?_, fun name symbol other between hbetween hdeclared => ?_⟩
  · rintro rfl
    exact empty.run_session actions
  · obtain ⟨answer, current, enclosing⟩ := outcome
    cases enclosing with
    | nil => rfl
    | cons outer rest => exact absurd hdepth (by simp [depth, scopes])
  · rw [afterAll_append, afterAll_scope]
    exact marks_scope (grows_balanced hinner _)
  · rw [afterAll_append]
    exact taken_of_declared hdeclared hbetween other

/-- A shadowed declaration is marked again when the inner one has been left, and is still the first
declaration of its scope. -/
theorem session_refines_maps_shadowed :
    let symbol (row : Nat) : Symbol := ⟨.int, ⟨row, 0⟩, false, false⟩
    let inner : List Action :=
      [.declare "x" (symbol 2), .mark "x", .enter, .leave, .mark "y"]
    Balanced inner ∧
    List.Forall₂ Bindings.Marks
      (empty.afterAll [.declare "x" (symbol 1), .declare "y" (symbol 1)]).maps
      (empty.afterAll ([.declare "x" (symbol 1), .declare "y" (symbol 1)] ++
        .enter :: (inner ++ [.leave]))).maps ∧
    ((empty.afterAll ([] ++ .declare "x" (symbol 1) :: (.enter :: (inner ++ [.leave])))).perform
      (.declare "x" (symbol 3))).1 = .taken (symbol 1).position := by
  intro symbol inner
  have hinner : Balanced inner :=
    .plain nofun nofun (.plain nofun nofun
      (@Balanced.scope [] [.mark "y"] .nil (.plain nofun nofun .nil)))
  exact ⟨hinner, (session_refines_maps _).2.2.1 inner hinner,
    (session_refines_maps []).2.2.2 "x" (symbol 1) (symbol 3) (.enter :: (inner ++ [.leave]))
      (.scope hinner .nil) rfl⟩

end SymbolTable

end MiniJava
