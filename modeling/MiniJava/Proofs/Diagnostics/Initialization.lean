import MiniJava.Proofs.Diagnostics.Finals
import MiniJava.Proofs.Diagnostics.Places
import MiniJava.Proofs.Diagnostics.Scoping
import MiniJava.Proofs.Grammar.Anchored

/-!
# Initialization follows the text

A variable that is declared without a value counts as assigned behind the first place of the text
at which an assignment to it is completed, whichever way control takes, where the fields of a class
stand in front of its other members. A read in front of this place is reported, and no other is.
The order is that of the tree, in which a default that is written in front of another label has lost
its place.
-/

namespace MiniJava

/-- The variable that a check reads, and where. -/
def Check.read? : Check → Option (String × Position)
  | .reads name position => some (name, position)
  | .begins target (some _) _ position => some (target, position)
  | .steps target _ position => some (target, position)
  | _ => none

theorem Check.place?_of_read? {c : Check} {name : String} {position : Position}
    (h : c.read? = some (name, position)) : c.place? = some position ∧ c.isStore = false := by
  cases c with
  | reads | steps =>
      cases h
      exact ⟨rfl, rfl⟩
  | begins target op value start =>
      cases op with
      | none => cases h
      | some op =>
          cases h
          exact ⟨rfl, rfl⟩
  | _ => cases h

def SymbolTable.Unassigned (table : SymbolTable) (name : String) : Prop :=
  ∃ symbol, table.lookup? name = some symbol ∧ symbol.initialized = false

namespace Inspection

variable {inspection : Inspection} {d : Diagnostic} {name : String} {position : Position}

theorem mem_reportIf {condition : Bool} {place : Position} {problem : Problem} :
    d ∈ (inspection.reportIf condition place problem).diagnostics ↔
      d ∈ inspection.diagnostics ∨ condition = true ∧ d = ⟨problem, place⟩ := by
  cases condition with
  | false => simp [reportIf]
  | true => simp [reportIf, report]

/-- Whether a variable may be written has nothing to do with its being read. -/
theorem uninitialized_mem_write {target : String} {place : Position} :
    ⟨.uninitialized name, position⟩ ∈ (inspection.write target place).diagnostics ↔
      ⟨.uninitialized name, position⟩ ∈ inspection.diagnostics := by
  unfold write
  cases inspection.symbols.lookup? target with
  | none => simp [report]
  | some symbol => simp [mem_reportIf]

theorem any_lookup?_iff {table : SymbolTable} :
    (table.lookup? name).any (fun symbol => !symbol.initialized) = true ↔ table.Unassigned name := by
  simp [SymbolTable.Unassigned, Option.any_eq_true]

theorem unassigned_and_iff {table : SymbolTable} {word : String} {place : Position} :
    table.Unassigned word ∧ (⟨.uninitialized name, position⟩ : Diagnostic) =
        ⟨.uninitialized word, place⟩ ↔
      some (word, place) = some (name, position) ∧ table.Unassigned name := by
  constructor
  · rintro ⟨hunassigned, hsame⟩
    cases hsame
    exact ⟨rfl, hunassigned⟩
  · rintro ⟨hsame, hunassigned⟩
    cases hsame
    exact ⟨hunassigned, rfl⟩

theorem uninitialized_mem_read {table : SymbolTable} {word : String} {place : Position} :
    ⟨.uninitialized name, position⟩ ∈
        ((⟨table, []⟩ : Inspection).read word place).after.diagnostics ↔
      some (word, place) = some (name, position) ∧ table.Unassigned name := by
  rw [← unassigned_and_iff, ← any_lookup?_iff, read]
  cases table.lookup? word with
  | none => simp [report]
  | some symbol => simp [mem_reportIf]

/-- A read is reported if its variable is declared and has no value. -/
theorem uninitialized_mem_check {table : SymbolTable} {c : Check} :
    ⟨.uninitialized name, position⟩ ∈ ((⟨table, []⟩ : Inspection).check c).diagnostics ↔
      c.read? = some (name, position) ∧ table.Unassigned name := by
  cases hsite : c.site? with
  | none =>
      have hquiet := @Check.quiet_of_silent table c hsite .uninitialized rfl
      refine iff_of_false (fun hmem => hquiet _ hmem rfl) fun hread => ?_
      cases c <;> simp_all [Check.site?, Check.read?]
  | some site =>
      cases c with
      | reads word place => exact uninitialized_mem_read
      | begins target op value place =>
          rw [check, mem_reportIf, uninitialized_mem_write]
          cases op with
          | none => simp [Check.read?]
          | some op =>
              rw [Check.read?, ← unassigned_and_iff, ← any_lookup?_iff]
              simp
      | steps target op place =>
          rw [check, expr, Check.read?, ← uninitialized_mem_read]
          cases hread : (read ⟨table, []⟩ target place).type with
          | none => rfl
          | some type => simp [mem_reportIf, uninitialized_mem_write]
      | declares type word place initialized constant =>
          rw [check, declare]
          cases table.declare word _ <;> simp [report, Check.read?]
      | _ => cases hsite

end Inspection

namespace Program

theorem uninitialized_mem_diagnostics {program : Program} {name : String} {position : Position} :
    ⟨.uninitialized name, position⟩ ∈ program.diagnostics ↔
      ∃ i c, program.checks[i]? = some c ∧ c.read? = some (name, position) ∧
        (program.tableAt i).Unassigned name := by
  rw [diagnostics_eq_run]
  refine SymbolTable.mem_reports.trans ?_
  simp only [SymbolTable.reports, Inspection.run_cons, Inspection.run_nil,
    Inspection.uninitialized_mem_check]
  rfl

end Program

/-- A check that completes no assignment to a cell leaves it as it is as long as its scope stays
open. -/
theorem Check.cell?_after_other {table : SymbolTable} {number : Nat} {name : String}
    {symbol : Symbol} (h : table.cell? number name = some symbol) {c : Check}
    (hopen : number < (c.after table).depth)
    (hother : ∀ op value position, c = .stores name op value position →
      ∀ found, table.resolve? name ≠ some (number, found)) :
    (c.after table).cell? number name = some symbol := by
  rw [Check.after_eq] at hopen ⊢
  cases c with
  | enter => exact SymbolTable.cell?_enter h
  | leave => exact (SymbolTable.cell?_leave hopen).trans h
  | declares type other position initialized constant => exact SymbolTable.cell?_bring h ..
  | stores target op value position =>
      refine SymbolTable.cell?_markInitialized_other h fun htarget => ?_
      subst htarget
      exact hother op value position rfl
  | _ => exact h

namespace Program

/-- Check number `k` completes an assignment to the variable that check number `d` declares, and
the assigned value ends at `p`. -/
def Completes (program : Program) (name : String) (d k : Nat) (p : Position) : Prop :=
  program.Means name d k ∧ ∃ op value position,
    program.checks[k]? = some (.stores name op value position) ∧ value.lastPosition = p

section Declared

variable {program : Program} {d : Nat} {type : TypeName} {name : String} {position : Position}
  {constant : Bool}

/-- A variable is unassigned up to the first check that completes an assignment to it. -/
theorem unassigned_iff
    (hd : program.checks[d]? = some (.declares type name position false constant))
    (hfresh : (program.tableAt d).current.lookup name = none) {i : Nat}
    (hi : program.Means name d i) : (program.tableAt i).Unassigned name ↔
      ¬∃ k < i, ∃ p, program.Completes name d k p := by
  obtain ⟨symbol, hresolved⟩ := hi.resolved
  have hlookup : (program.tableAt i).lookup? name = some symbol := by
    rw [SymbolTable.lookup?, hresolved]
    rfl
  have hcell := SymbolTable.cell?_of_resolve? hresolved
  constructor
  · rintro ⟨found, hfound, hfalse⟩ ⟨k, hlt, p, hk, op, value, start, hstore, -⟩
    obtain rfl := Option.some.inj (hlookup.symm.trans hfound)
    obtain ⟨before, hbefore⟩ := hk.resolved
    have hmarked : (program.tableAt (k + 1)).cell? (program.tableAt d).enclosing.length name =
        some before.marked := by
      rw [tableAt_succ hstore, Check.after_eq]
      exact SymbolTable.cell?_markInitialized_self hbefore
    obtain ⟨kept, hkept, htrue⟩ := cell?_kept (P := fun symbol => symbol.initialized = true)
      (fun _ _ => rfl) hlt (fun m hm => hi.inScope m (by have := hk.behind; omega))
      ⟨_, hmarked, rfl⟩
    obtain rfl := Option.some.inj (hcell.symm.trans hkept)
    exact Bool.false_ne_true (hfalse.symm.trans htrue)
  · intro hnone
    have hkept : ∀ m, d + 1 ≤ m → m ≤ i →
        (program.tableAt m).cell? (program.tableAt d).enclosing.length name =
          some ⟨.ofTypeName type, position, false, constant⟩ := by
      intro m hm
      induction hm with
      | refl =>
          intro _
          rw [tableAt_succ hd, Check.after_eq]
          exact SymbolTable.cell?_bring_self hfresh _
      | @step m hm ih =>
          intro hle
          have hbefore := ih (Nat.le_of_succ_le hle)
          cases hc : program.checks[m]? with
          | none => rwa [tableAt_succ_of_none hc]
          | some c =>
              have hopen := hi.inScope (m + 1) (Nat.lt_succ_of_lt hm) hle
              rw [tableAt_succ hc] at hopen ⊢
              refine Check.cell?_after_other hbefore hopen ?_
              rintro op value start rfl found hfound
              have hmeans : program.Means name d m := ⟨hm, fun j hj hjm =>
                hi.inScope j hj (hjm.trans (Nat.le_of_succ_le hle)), found, hfound⟩
              exact hnone ⟨m, hle, _, hmeans, op, value, start, hc, rfl⟩
    have hsame := hcell.symm.trans (hkept i hi.behind (Nat.le_refl i))
    exact ⟨symbol, hlookup, by rw [Option.some.inj hsame]⟩

end Declared

end Program

/-- Of two members of a list without duplicates only one is in front of the other. -/
theorem not_sublist_swap {α : Type} {list : List α} (h : list.Nodup) {a b : α}
    (hab : [a, b].Sublist list) : ¬[b, a].Sublist list := by
  induction list with
  | nil => cases hab
  | cons first rest ih =>
      obtain ⟨hfirst, hrest⟩ := List.nodup_cons.mp h
      intro hba
      cases hab with
      | cons _ hab =>
          cases hba with
          | cons _ hba => exact ih hrest hab hba
          | cons_cons _ hba => exact hfirst (hab.subset (List.mem_cons_of_mem _ List.mem_cons_self))
      | cons_cons _ hab =>
          cases hba with
          | cons _ hba => exact hfirst (hba.subset (List.mem_cons_of_mem _ List.mem_cons_self))
          | cons_cons _ hba => exact hfirst (hba.subset List.mem_cons_self)

namespace Placed

variable {checks : List Check} {anchors : List Anchor} {i j : Nat} {c next : Check}
  {p q : Position}

theorem inOrder_of_lt (h : Placed checks anchors) (hi : checks[i]? = some c)
    (hj : checks[j]? = some next) (hlt : i < j) :
    Check.InOrder (anchors.map Anchor.position) c next := by
  obtain ⟨hiLt, rfl⟩ := List.getElem?_eq_some_iff.mp hi
  obtain ⟨hjLt, rfl⟩ := List.getElem?_eq_some_iff.mp hj
  exact List.pairwise_iff_getElem.mp h.inOrder i j hiLt hjLt hlt

/-- No two checks read at one place. -/
theorem eq_of_place (h : Placed checks anchors) (hnodup : (anchors.map Anchor.position).Nodup)
    (hi : checks[i]? = some c) (hj : checks[j]? = some next) (hc : c.place? = some p)
    (hnext : next.place? = some p) (hcRead : c.isStore = false)
    (hnextRead : next.isStore = false) : i = j := by
  have hnone : ¬[p, p].Sublist (anchors.map Anchor.position) :=
    fun hsub => not_sublist_swap hnodup hsub hsub
  rcases Nat.lt_trichotomy i j with hlt | heq | hlt
  · have hor := h.inOrder_of_lt hi hj hlt p hc p hnext
    simp [hnone, hnextRead] at hor
  · exact heq
  · have hor := h.inOrder_of_lt hj hi hlt p hnext p hc
    simp [hnone, hcRead] at hor

/-- An assignment is completed in front of a read if and only if its value ends there. -/
theorem lt_iff (h : Placed checks anchors) (hnodup : (anchors.map Anchor.position).Nodup)
    (hi : checks[i]? = some c) (hj : checks[j]? = some next) (hc : c.place? = some p)
    (hnext : next.place? = some q) (hstore : c.isStore = true) (hread : next.isStore = false) :
    i < j ↔ [p, q].Sublist (anchors.map Anchor.position) := by
  constructor
  · intro hlt
    exact (h.inOrder_of_lt hi hj hlt p hc q hnext).resolve_right (by simp [hread])
  · intro hsub
    refine Nat.lt_of_not_le fun hle => ?_
    rcases Nat.lt_or_eq_of_le hle with hlt | rfl
    · rcases h.inOrder_of_lt hj hi hlt q hnext p hc with hswap | ⟨rfl, -⟩
      · exact not_sublist_swap hnodup hsub hswap
      · exact not_sublist_swap hnodup hsub hsub
    · obtain rfl := Option.some.inj (hi.symm.trans hj)
      exact Bool.false_ne_true (hread.symm.trans hstore)

end Placed

namespace Program

/-- The position `p` stands in front of `q` in the tree, where the fields of a class stand in front
of its other members. -/
def Before (program : Program) (p q : Position) : Prop :=
  [p, q].Sublist (program.fieldsFirst.anchors.map Anchor.position)

instance (program : Program) (p q : Position) : Decidable (program.Before p q) :=
  inferInstanceAs (Decidable (List.Sublist _ _))

/-- Of the reads of a variable that is declared without a value exactly those are reported that no
completed assignment to it stands in front of. The anchors of a program are in the order of its text
if no default stands in front of another label. -/
theorem uninitialized_iff {source : String} {program : Program}
    (h : ofSource source = .ok program) {d i : Nat} {type : TypeName} {name : String}
    {declared position : Position} {constant : Bool}
    (hd : program.checks[d]? = some (.declares type name declared false constant))
    (hfresh : (program.tableAt d).current.lookup name = none)
    (hread : program.checks[i]?.bind Check.read? = some (name, position))
    (hmeans : program.Means name d i) :
    (⟨.uninitialized name, position⟩ ∈ program.diagnostics ↔
        ¬∃ k p, program.Completes name d k p ∧ program.Before p position) ∧
      (defaultsLast (tokenize source) = true →
        (program.anchors.map Anchor.position).Pairwise (· < ·)) := by
  refine ⟨?_, anchors_increasing h⟩
  have hnodup : (program.fieldsFirst.anchors.map Anchor.position).Nodup :=
    (program.anchors_fieldsFirst.map Anchor.position).nodup_iff.mpr (anchors_nodup h)
  have hplaced := Placed.program program
  obtain ⟨c, hc, hcRead⟩ := Option.bind_eq_some_iff.mp hread
  obtain ⟨hplace, hstore⟩ := Check.place?_of_read? hcRead
  have hreported : ⟨.uninitialized name, position⟩ ∈ program.diagnostics ↔
      (program.tableAt i).Unassigned name := by
    rw [uninitialized_mem_diagnostics]
    constructor
    · rintro ⟨j, other, hj, hother, hunassigned⟩
      obtain ⟨hotherPlace, hotherStore⟩ := Check.place?_of_read? hother
      obtain rfl := hplaced.eq_of_place hnodup hj hc hotherPlace hplace hotherStore hstore
      exact hunassigned
    · intro hunassigned
      exact ⟨i, c, hc, hcRead, hunassigned⟩
  rw [hreported, unassigned_iff hd hfresh hmeans]
  refine not_congr ⟨?_, ?_⟩
  · rintro ⟨k, hlt, p, hcompletes⟩
    obtain ⟨-, op, value, start, hk, rfl⟩ := id hcompletes
    exact ⟨k, _, hcompletes, (hplaced.lt_iff hnodup hk hc rfl hplace rfl hstore).mp hlt⟩
  · rintro ⟨k, p, hcompletes, hbefore⟩
    obtain ⟨-, op, value, start, hk, rfl⟩ := id hcompletes
    exact ⟨k, (hplaced.lt_iff hnodup hk hc rfl hplace rfl hstore).mpr hbefore, _, hcompletes⟩

/-- The compound assignment is reported and initializes the variable for the step behind it. -/
theorem uninitialized_iff_compound :
    ∃ program, ofSource "int x; x += 1; x++;" = .ok program ∧
      (¬∃ k p, program.Completes "x" 0 k p ∧ program.Before p ⟨1, 8⟩) ∧
      ¬¬∃ k p, program.Completes "x" 0 k p ∧ program.Before p ⟨1, 16⟩ := by
  obtain ⟨program, hsource, hd, hfresh, hfirst, hfirstMeans, hreported, hsecond, hsecondMeans,
      hsilent⟩ := exists_program "int x; x += 1; x++;" (fun program =>
    program.checks[0]? = some (.declares ⟨"int", 0⟩ "x" ⟨1, 5⟩ false false) ∧
      (program.tableAt 0).current.lookup "x" = none ∧
      program.checks[1]?.bind Check.read? = some ("x", ⟨1, 8⟩) ∧ program.Means "x" 0 1 ∧
      ⟨.uninitialized "x", ⟨1, 8⟩⟩ ∈ program.diagnostics ∧
      program.checks[3]?.bind Check.read? = some ("x", ⟨1, 16⟩) ∧ program.Means "x" 0 3 ∧
      ⟨.uninitialized "x", ⟨1, 16⟩⟩ ∉ program.diagnostics) (by decide +kernel)
  exact ⟨program, hsource, (uninitialized_iff hsource hd hfresh hfirst hfirstMeans).1.mp hreported,
    mt (uninitialized_iff hsource hd hfresh hsecond hsecondMeans).1.mpr hsilent⟩

/-- A field is read in front of a method that is written further up, and a case in front of a
default that has lost its place. -/
theorem uninitialized_out_of_order :
    (∃ program, ofSource
        "int x; class A \x7b void m() \x7b x = 1; \x7d int y = x; \x7d" = .ok program ∧
      program.checks[0]? = some (.declares ⟨"int", 0⟩ "x" ⟨1, 5⟩ false false) ∧
      program.checks[2]?.bind Check.read? = some ("x", ⟨1, 46⟩) ∧ program.Means "x" 0 2 ∧
      program.Completes "x" 0 7 ⟨1, 33⟩ ∧ (⟨1, 33⟩ : Position) < ⟨1, 46⟩ ∧
      ⟨.uninitialized "x", ⟨1, 46⟩⟩ ∈ program.diagnostics) ∧
    ∃ program, ofSource "int x; switch (1) \x7b default: x = 1; case 2: x++; \x7d" = .ok program ∧
      program.checks[0]? = some (.declares ⟨"int", 0⟩ "x" ⟨1, 5⟩ false false) ∧
      program.checks[2]?.bind Check.read? = some ("x", ⟨1, 45⟩) ∧ program.Means "x" 0 2 ∧
      program.Completes "x" 0 4 ⟨1, 34⟩ ∧ (⟨1, 34⟩ : Position) < ⟨1, 45⟩ ∧
      ⟨.uninitialized "x", ⟨1, 45⟩⟩ ∈ program.diagnostics := by
  constructor
  · obtain ⟨program, hsource, hd, hread, hmeans, hstored, hstoredMeans, hreported⟩ :=
      exists_program "int x; class A \x7b void m() \x7b x = 1; \x7d int y = x; \x7d"
        (fun program =>
          program.checks[0]? = some (.declares ⟨"int", 0⟩ "x" ⟨1, 5⟩ false false) ∧
          program.checks[2]?.bind Check.read? = some ("x", ⟨1, 46⟩) ∧ program.Means "x" 0 2 ∧
          program.checks[7]? =
            some (.stores "x" none (.literal (.number "1") ⟨1, 33⟩) ⟨1, 29⟩) ∧
          program.Means "x" 0 7 ∧
          ⟨.uninitialized "x", ⟨1, 46⟩⟩ ∈ program.diagnostics) (by decide +kernel)
    exact ⟨program, hsource, hd, hread, hmeans, ⟨hstoredMeans, _, _, _, hstored, rfl⟩,
      .inr ⟨rfl, by decide⟩, hreported⟩
  · obtain ⟨program, hsource, hd, hread, hmeans, hstored, hstoredMeans, hreported⟩ :=
      exists_program "int x; switch (1) \x7b default: x = 1; case 2: x++; \x7d" (fun program =>
        program.checks[0]? = some (.declares ⟨"int", 0⟩ "x" ⟨1, 5⟩ false false) ∧
        program.checks[2]?.bind Check.read? = some ("x", ⟨1, 45⟩) ∧ program.Means "x" 0 2 ∧
        program.checks[4]? =
          some (.stores "x" none (.literal (.number "1") ⟨1, 34⟩) ⟨1, 30⟩) ∧
        program.Means "x" 0 4 ∧
        ⟨.uninitialized "x", ⟨1, 45⟩⟩ ∈ program.diagnostics) (by decide +kernel)
    exact ⟨program, hsource, hd, hread, hmeans, ⟨hstoredMeans, _, _, _, hstored, rfl⟩,
      .inr ⟨rfl, by decide⟩, hreported⟩

end Program

end MiniJava
