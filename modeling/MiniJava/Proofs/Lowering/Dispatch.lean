import Mathlib.Data.List.Forall2
import MiniJava.Proofs.Lowering.Restored

/-!
# Handlers of exceptions

A `catch` clause becomes an `except` line for the Python class of its exception class, and the
lines stand in the order of the clauses. Some classes share a Python class, and every class without
one of its own is caught as `Exception`, which stands above the others. Python takes the first line
that names the class of an exception or one above it, so a clause loses its exceptions exactly to
the earlier ones whose class has no Python class of its own or shares that of the clause.
-/

namespace MiniJava

def standardParents : List (String × String) :=
  [("ArrayIndexOutOfBoundsException", "IndexOutOfBoundsException"),
    ("NumberFormatException", "IllegalArgumentException"),
    ("ArithmeticException", "RuntimeException"), ("IndexOutOfBoundsException", "RuntimeException"),
    ("IllegalArgumentException", "RuntimeException"), ("NullPointerException", "RuntimeException"),
    ("RuntimeException", "Exception"), ("Exception", "Throwable"), ("Throwable", "Object")]

/-- Which class each class extends, with the exception classes where the standard library has
them. -/
structure Hierarchy where
  parent? : String → Option String
  standard : ∀ entry ∈ standardParents, parent? entry.1 = some entry.2
  top : parent? "Object" = none

/-- A class and one above it. -/
inductive Hierarchy.Subclass (hierarchy : Hierarchy) : String → String → Prop
  | direct {name parent : String} :
      hierarchy.parent? name = some parent → Subclass hierarchy name parent
  | inherited {name parent upper : String} : hierarchy.parent? name = some parent →
      Subclass hierarchy parent upper → Subclass hierarchy name upper

section Uppers

variable {hierarchy : Hierarchy} {uppers : List String}

/-- Classes that hold the parents of their own hold everything above a class whose parent they
hold. -/
theorem Hierarchy.Subclass.mem_uppers {name upper : String} (h : hierarchy.Subclass name upper)
    (hclosed : ∀ lower ∈ uppers, ∀ parent ∈ hierarchy.parent? lower, parent ∈ uppers)
    (hname : ∀ parent ∈ hierarchy.parent? name, parent ∈ uppers) : upper ∈ uppers := by
  induction h with
  | direct hparent => exact hname _ hparent
  | inherited hparent _ ih => exact ih (hclosed _ (hname _ hparent))

/-- No class is below one that stands before it, if what is above the others is none of them. -/
theorem Hierarchy.pairwise_not_subclass (first : String) (rest : List String)
    (hparents : ∀ lower ∈ rest ++ uppers, ∀ parent ∈ hierarchy.parent? lower, parent ∈ uppers)
    (hnames : ∀ name ∈ first :: rest, name ∉ uppers) :
    (first :: rest).Pairwise fun earlier later => ¬ hierarchy.Subclass later earlier := by
  have hnone : ∀ earlier ∈ first :: rest, ∀ later ∈ rest, ¬ hierarchy.Subclass later earlier := by
    intro earlier hearlier later hlater hsubclass
    refine hnames earlier hearlier (hsubclass.mem_uppers ?_ ?_)
    · exact fun lower hlower => hparents lower (List.mem_append_right _ hlower)
    · exact hparents later (List.mem_append_left _ hlater)
  refine List.pairwise_cons.mpr ⟨hnone first List.mem_cons_self, ?_⟩
  exact List.pairwise_of_forall_mem_list fun earlier hearlier =>
    hnone earlier (List.mem_cons_of_mem _ hearlier)

end Uppers

def Hierarchy.withState : Hierarchy where
  parent? name := (("IllegalStateException", "RuntimeException") :: standardParents).lookup name
  standard := by decide +kernel
  top := by decide +kernel

namespace Python

def superclasses : String → List String
  | "ZeroDivisionError" => ["ArithmeticError", "Exception", "BaseException"]
  | "IndexError" => ["LookupError", "Exception", "BaseException"]
  | "ValueError" | "AttributeError" => ["Exception", "BaseException"]
  | "Exception" => ["BaseException"]
  | _ => []

def handles (line raised : String) : Bool := line = raised || (superclasses raised).contains line

/-- The place of the handler of an exception: the first that can handle it. -/
def handler? {σ : Type} (raised : String) (handlers : List (Target.Handler σ)) : Option Nat :=
  handlers.findIdx? fun handler => handles handler.exception raised

theorem handles_self (name : String) : handles name name = true := by simp [handles]

end Python

namespace Lowering

def mapped : List String :=
  ["ArithmeticException", "ArrayIndexOutOfBoundsException", "IndexOutOfBoundsException",
    "NumberFormatException", "IllegalArgumentException", "NullPointerException"]

def sharing : List (String × String) :=
  [("ArrayIndexOutOfBoundsException", "IndexOutOfBoundsException"),
    ("NumberFormatException", "IllegalArgumentException")]

/-- The clause for a class takes the exceptions of another from a clause behind it. -/
def Absorbs (earlier later : String) : Prop := earlier ∉ mapped ∨ (earlier, later) ∈ sharing

theorem exceptionName_unmapped {type : TypeName} (h : type.name ∉ mapped) :
    exceptionName type = "Exception" := by
  unfold exceptionName
  split
  all_goals first
    | rfl
    | next hname => exact absurd (by rw [hname]; decide) h

theorem handles_exception (type : TypeName) :
    Python.handles "Exception" (exceptionName type) = true := by
  have hmapped : ∀ name ∈ mapped,
      Python.handles "Exception" (exceptionName ⟨name, 0⟩) = true := by decide +kernel
  by_cases h : type.name ∈ mapped
  · exact hmapped type.name h
  · rw [exceptionName_unmapped h]
    decide

/-- Of the Python classes below `Exception` none handles the exceptions of another. -/
theorem shared_of_handles : ∀ earlier ∈ mapped, ∀ later : String,
    Python.handles (exceptionName ⟨earlier, 0⟩) (exceptionName ⟨later, 0⟩) = true →
      earlier = later ∨ (earlier, later) ∈ sharing ∨ (later, earlier) ∈ sharing := by
  have hmapped : ∀ earlier ∈ mapped, ∀ later ∈ mapped,
      Python.handles (exceptionName ⟨earlier, 0⟩) (exceptionName ⟨later, 0⟩) = true →
        earlier = later ∨ (earlier, later) ∈ sharing ∨ (later, earlier) ∈ sharing := by
    decide +kernel
  have hexception : ∀ earlier ∈ mapped,
      Python.handles (exceptionName ⟨earlier, 0⟩) "Exception" = false := by decide +kernel
  intro earlier hearlier later hhandles
  by_cases hlater : later ∈ mapped
  · exact hmapped earlier hearlier later hlater hhandles
  · have hunmapped : exceptionName ⟨later, 0⟩ = "Exception" := exceptionName_unmapped hlater
    rw [hunmapped] at hhandles
    exact absurd hhandles (by simp [hexception earlier hearlier])

theorem handles_of_sharing : ∀ pair ∈ sharing,
    Python.handles (exceptionName ⟨pair.1, 0⟩) (exceptionName ⟨pair.2, 0⟩) = true := by
  decide +kernel

theorem sharing_standard : ∀ pair ∈ sharing, pair ∈ standardParents := by decide +kernel

/-- Of two clauses that may stand in this order, the first takes the exceptions of the second if
its class has no Python class of its own, or the same one. -/
theorem handles_iff_absorbs (hierarchy : Hierarchy) {earlier later : TypeName}
    (hdistinct : earlier.name ≠ later.name)
    (hordered : ¬ hierarchy.Subclass later.name earlier.name) :
    Python.handles (exceptionName earlier) (exceptionName later) = true ↔
      Absorbs earlier.name later.name := by
  constructor
  · intro hhandles
    by_cases hearlier : earlier.name ∈ mapped
    · rcases shared_of_handles earlier.name hearlier later.name hhandles with
        hsame | hshared | hreversed
      · exact absurd hsame hdistinct
      · exact .inr hshared
      · exact absurd (.direct (hierarchy.standard _ (sharing_standard _ hreversed))) hordered
    · exact .inl hearlier
  · rintro (hunmapped | hshared)
    · rw [exceptionName_unmapped hunmapped]
      exact handles_exception later
    · exact handles_of_sharing _ hshared

/-- The handler is what the clause is lowered to: its statements stand in a scope that has the
exception in it. -/
structure Translates (place : Place) (table : SymbolTable) (clause : CatchClause Stmt)
    (handler : Target.Handler Target.Stmt) : Prop where
  exception : handler.exception = exceptionName clause.exception
  name : handler.name = clause.name
  body : ∃ inner, (stmts place clause.body).outcome (table.enter.bring clause.name
    (declared (.ofTypeName clause.exception) clause.position)) = (.ok handler.body, inner)

variable {place : Place} {shared : Bool} {table after : SymbolTable} {body : List Stmt}
  {catches : List (CatchClause Stmt)} {cleanup : Option (List Stmt)}
  {caught : List (Target.Handler Target.Stmt)} {out : List Target.Stmt}

theorem handlers_translate (hout : (handlers place catches).outcome table = (.ok caught, after)) :
    List.Forall₂ (Translates place table) catches caught := by
  induction catches generalizing caught with
  | nil =>
      rw [handlers] at hout
      cases hout
      exact .nil
  | cons clause rest ih =>
      obtain ⟨exception, name, body, position⟩ := clause
      have hreads := handlers_reads place (⟨exception, name, body, position⟩ :: rest)
      obtain ⟨first, inner, more, hfirst, hmore, rfl⟩ := exists_of_handler hout
      have hleave : inner.leave = table :=
        ((handlers_reads place rest).after hmore).symm.trans (hreads.after hout)
      rw [hleave] at hmore
      exact .cons ⟨rfl, rfl, inner, hfirst⟩ (ih hmore)

/-- Python looks for the handler among the clauses in their order. -/
theorem handler?_eq (h : List.Forall₂ (Translates place table) catches caught) (raised : String) :
    Python.handler? raised caught = catches.findIdx? fun clause =>
      Python.handles (exceptionName clause.exception) raised := by
  induction h with
  | nil => rfl
  | cons hfirst _ ih =>
      rw [Python.handler?] at ih ⊢
      rw [List.findIdx?_cons, List.findIdx?_cons, hfirst.exception, ih]

/-- The first clause that takes an exception of a clause stands before it or is the clause. -/
theorem exists_handler? (h : List.Forall₂ (Translates place table) catches caught) {i : Nat}
    (hi : i < catches.length) :
    ∃ j, ∃ hj : j < catches.length,
      Python.handler? (exceptionName catches[i].exception) caught = some j ∧ j ≤ i ∧
      Python.handles (exceptionName catches[j].exception)
        (exceptionName catches[i].exception) = true ∧
      ∀ k, ∀ hk : k < j, ¬ Python.handles (exceptionName catches[k].exception)
        (exceptionName catches[i].exception) = true := by
  rw [handler?_eq h]
  cases hfind : catches.findIdx? fun clause =>
      Python.handles (exceptionName clause.exception) (exceptionName catches[i].exception) with
  | none =>
      have hnone := List.findIdx?_eq_none_iff.mp hfind catches[i] (List.getElem_mem hi)
      rw [Python.handles_self] at hnone
      cases hnone
  | some j =>
      obtain ⟨hj, htakes, hfirst⟩ := List.findIdx?_eq_some_iff_getElem.mp hfind
      refine ⟨j, hj, rfl, Nat.le_of_not_lt fun hij => ?_, htakes, hfirst⟩
      exact hfirst i hij (Python.handles_self _)

/-- The clauses of a `try` become handlers in their order. If no clause is for a class of an
earlier one or for one below, the exceptions of each clause come to it or to an earlier one, and
they come to it exactly if no earlier clause absorbs them. -/
theorem exceptions_come_to_clause (hierarchy : Hierarchy)
    (hdistinct : (catches.map fun clause => clause.exception.name).Nodup)
    (hordered : catches.Pairwise fun earlier later =>
      ¬ hierarchy.Subclass later.exception.name earlier.exception.name)
    (hout : (stmt place shared (.tryCatch body catches cleanup)).outcome table =
      (.ok out, after)) :
    ∃ first caught last, out = [.tryExcept first caught last] ∧
      List.Forall₂ (Translates place table) catches caught ∧
      ∀ i clause, catches[i]? = some clause → ∃ j taker, catches[j]? = some taker ∧
        Python.handler? (exceptionName clause.exception) caught = some j ∧
        (j = i ∨ j < i ∧ Absorbs taker.exception.name clause.exception.name) ∧
        (j = i ↔ ∀ earlier ∈ catches.take i,
          ¬ Absorbs earlier.exception.name clause.exception.name) := by
  obtain ⟨first, inner, caught, behind, last, hfirst, hcaught, hlast, rfl⟩ :=
    exists_of_tryCatch hout
  rw [(stmts_stays place body).leave_eq hfirst] at hcaught
  have htranslates := handlers_translate hcaught
  refine ⟨first, caught, last, rfl, htranslates, fun i clause hclause => ?_⟩
  obtain ⟨hi, rfl⟩ := List.getElem?_eq_some_iff.mp hclause
  have habsorbs (k : Nat) (hk : k < i) := handles_iff_absorbs hierarchy
    (List.pairwise_iff_getElem.mp (List.pairwise_map.mp hdistinct) k i (Nat.lt_trans hk hi) hi hk)
    (List.pairwise_iff_getElem.mp hordered k i (Nat.lt_trans hk hi) hi hk)
  obtain ⟨j, hj, hhandler, hle, htakes, hnone⟩ := exists_handler? htranslates hi
  refine ⟨j, catches[j], List.getElem?_eq_getElem hj, hhandler, ?_, ?_⟩
  · rcases Nat.eq_or_lt_of_le hle with rfl | hlt
    · exact .inl rfl
    · exact .inr ⟨hlt, (habsorbs j hlt).mp htakes⟩
  · rw [List.forall_mem_iff_getElem]
    constructor
    · rintro rfl k hk
      rw [List.length_take] at hk
      rw [List.getElem_take, ← habsorbs k (by omega)]
      exact hnone k (by omega)
    · intro hfree
      rcases Nat.eq_or_lt_of_le hle with rfl | hlt
      · rfl
      · have hkept := hfree j (by rw [List.length_take]; omega)
        rw [List.getElem_take] at hkept
        exact absurd ((habsorbs j hlt).mp htakes) hkept

/-- A clause for a class that does nothing. -/
def idleClause (name : String) : CatchClause Stmt := ⟨⟨name, 0⟩, "e", [], .start⟩

/-- No clause is for a class below that of an earlier one, with the classes above those of the
clauses known. -/
theorem pairwise_idleClause {hierarchy : Hierarchy} {first : String} {rest uppers : List String}
    (hparents : ∀ lower ∈ rest ++ uppers, ∀ parent ∈ hierarchy.parent? lower, parent ∈ uppers)
    (hnames : ∀ name ∈ first :: rest, name ∉ uppers) :
    ((first :: rest).map idleClause).Pairwise fun earlier later =>
      ¬ hierarchy.Subclass later.exception.name earlier.exception.name :=
  List.pairwise_map.mpr (hierarchy.pairwise_not_subclass first rest hparents hnames)

def aboveUnchecked : List String := ["RuntimeException", "Exception", "Throwable", "Object"]

/-- A failed division comes to its clause behind one for numbers in a wrong format, and that clause
takes the illegal arguments. -/
theorem exceptions_come_to_clause_second :
    let catches := ["NumberFormatException", "ArithmeticException",
      "IllegalArgumentException"].map idleClause
    ∃ caught, (stmt .outside false (.tryCatch [] catches none)).outcome .empty =
        (.ok [.tryExcept [] caught none], .empty) ∧
      (catches.map fun clause => clause.exception.name).Nodup ∧
      catches.Pairwise (fun earlier later =>
        ¬ Hierarchy.withState.Subclass later.exception.name earlier.exception.name) ∧
      Python.handler? "ZeroDivisionError" caught = some 1 ∧
      ∃ j < 2, Python.handler? "ValueError" caught = some j := by
  intro catches
  have hout : (stmt .outside false (.tryCatch [] catches none)).outcome .empty =
      (.ok [.tryExcept [] [⟨"ValueError", "e", []⟩, ⟨"ZeroDivisionError", "e", []⟩,
        ⟨"ValueError", "e", []⟩] none], .empty) := rfl
  have hdistinct : (catches.map fun clause => clause.exception.name).Nodup := by decide +kernel
  have hparents : ∀ lower ∈ ["ArithmeticException", "IllegalArgumentException"] ++ aboveUnchecked,
      ∀ parent ∈ Hierarchy.withState.parent? lower, parent ∈ aboveUnchecked := by decide +kernel
  have hordered : catches.Pairwise fun earlier later =>
      ¬ Hierarchy.withState.Subclass later.exception.name earlier.exception.name :=
    pairwise_idleClause hparents (by decide +kernel)
  obtain ⟨first, caught, last, hsame, -, hcome⟩ :=
    exceptions_come_to_clause Hierarchy.withState hdistinct hordered hout
  obtain ⟨rfl, rfl, rfl⟩ := Target.Stmt.tryExcept.inj (List.singleton_inj.mp hsame)
  obtain ⟨j, _, -, hdivision, -, hown⟩ := hcome 1 (idleClause "ArithmeticException") rfl
  obtain ⟨k, _, -, hargument, hplace, hkept⟩ := hcome 2 (idleClause "IllegalArgumentException") rfl
  refine ⟨_, hout, hdistinct, hordered, ?_, k, ?_, hargument⟩
  · rw [← hown.mpr (by simp [catches, Absorbs, idleClause, mapped, sharing])]
    exact hdivision
  · have htaken : ¬ k = 2 := fun hk =>
      hkept.mp hk (idleClause "NumberFormatException") (by simp [catches])
        (.inr (by decide +kernel))
    exact (hplace.resolve_left htaken).1

/-- A clause for calls at a wrong time stands before one for arithmetic, and its class is neither
that of the other nor above it; but it takes the failed divisions. -/
theorem exception_taken_by_unrelated_clause :
    let catches := ["IllegalStateException", "ArithmeticException"].map idleClause
    ∃ caught, (stmt .outside false (.tryCatch [] catches none)).outcome .empty =
        (.ok [.tryExcept [] caught none], .empty) ∧
      (catches.map fun clause => clause.exception.name).Nodup ∧
      catches.Pairwise (fun earlier later =>
        ¬ Hierarchy.withState.Subclass later.exception.name earlier.exception.name) ∧
      (catches[1]?.bind fun clause =>
        Python.handler? (exceptionName clause.exception) caught) = some 0 := by
  have hparents : ∀ lower ∈ ["ArithmeticException"] ++ aboveUnchecked,
      ∀ parent ∈ Hierarchy.withState.parent? lower, parent ∈ aboveUnchecked := by decide +kernel
  exact ⟨[⟨"Exception", "e", []⟩, ⟨"ZeroDivisionError", "e", []⟩], rfl, by decide +kernel,
    pairwise_idleClause hparents (by decide +kernel), by decide +kernel⟩

end Lowering

end MiniJava
