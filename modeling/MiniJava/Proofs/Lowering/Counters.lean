import MiniJava.Proofs.Lowering.Bounds
import MiniJava.Proofs.Lowering.Operations
import MiniJava.Proofs.Lowering.Ranges
import MiniJava.Proofs.Lowering.Targets

/-!
# Counters behind their loops

A loop over a range binds its counter in front of every round, and no emitted line in it binds the
counter again. So the counter keeps the last integer of the range, a step before the integer at
which the counter of the source ends; without a round it keeps what it held before the loop, where
the source has given it the start. A counter that is a field keeps that in any case, for the loop
binds a variable.
-/

namespace MiniJava

theorem Counts.getLast?_eq {op : BinaryOp} {bound step start last : Int} {values : List Int}
    (h : Counts op bound step start values last) (hvalues : values ≠ []) :
    values.getLast? = some (last - step) := by
  induction h with
  | stops => exact absurd rfl hvalues
  | @goesOn i last rest _ hrest ih =>
      cases rest with
      | nil =>
          cases hrest
          rw [List.getLast?_singleton, Int.add_sub_cancel]
      | cons second rest =>
          rw [List.getLast?_cons_cons]
          exact ih (List.cons_ne_nil _ _)

namespace Python

structure Env.Changes (vars attributes : List String) (env next : Env) : Prop where
  names : ∀ name ∉ vars, next.names name = env.names name
  members : ∀ holder ∉ vars, ∀ word ∉ attributes, next.members holder word = env.members holder word

/-- The rounds of a loop over a list of integers that comes to its end: each round binds the counter
to the next integer, and then its body changes nothing but what these words name. -/
inductive Rounds (counter : String) (words : List String) : List Int → Env → Env → Prop
  | finish {env : Env} : Rounds counter words [] env env
  | round {i : Int} {rest : List Int} {env bound next later : Env} :
      bound.names counter = some (.int i) → env.Changes [counter] [] bound →
      bound.Changes words words next → Rounds counter words rest next later →
      Rounds counter words (i :: rest) env later

namespace Rounds

variable {counter : String} {words : List String} {values : List Int} {env later : Env}

theorem names_counter (h : Rounds counter words values env later) (hcounter : counter ∉ words) :
    later.names counter = (values.getLast?.map Value.int).or (env.names counter) := by
  induction h with
  | finish => rfl
  | @round i rest env bound next later hbound _ hbody _ ih =>
      have hnext : next.names counter = some (.int i) :=
        (hbody.names counter hcounter).trans hbound
      rw [ih, hnext, List.getLast?_cons]
      cases rest.getLast? <;> rfl

theorem members_eq (h : Rounds counter words values env later) {holder word : String}
    (hcounter : holder ≠ counter) (hholder : holder ∉ words) (hword : word ∉ words) :
    later.members holder word = env.members holder word := by
  induction h with
  | finish => rfl
  | round _ hbind hbody _ ih =>
      rw [ih, hbody.members holder hholder word hword]
      exact hbind.members holder (by simpa using hcounter) word List.not_mem_nil

end Rounds

end Python

namespace Lowering

open RangeLoop
open Target (allTargets)

variable {init body : Stmt} {condition : Option Expr} {update : List Expr} {loop : RangeLoop}
  {place : Place} {shared : Bool} {table after : SymbolTable} {out : List Target.Stmt}

theorem reference_counted (hinside : place.Inside table) :
    place.reference (counted loop table) loop.counter = .name loop.counter := by
  have hholder : place.fieldHolder? (counted loop table) loop.counter = none :=
    congrArg Meaning.holder (place.meaning_bring_self hinside loop.counter _)
  rw [Place.reference, hholder]

/-- Names mean behind a loop what they mean in front of it. -/
theorem reference_behind_loop
    (hout : (stmt place shared (.forLoop (some init) condition update body)).outcome table =
      (.ok out, after)) (name : String) :
    place.reference after name = place.reference table name := by
  have hscope := (stmt_refers place shared _ hout).scope
  have hnone : declaredNames shared (.forLoop (some init) condition update body) = [] := by
    cases shared <;> rfl
  rw [hnone] at hscope
  exact Place.Same.reference (place.meaning_of_bare hscope.bare_eq name)

theorem not_mem_targets {name : String} {begun inner : SymbolTable} {code : List Target.Stmt}
    (hbody : (stmt place true body).outcome begun = (.ok code, inner))
    (hassigned : name ∉ body.assigned) (hdeclared : .declared name ∉ body.mentioned) :
    name ∉ allTargets code := fun hmem =>
  (stmt_accounted place true body hbody name hmem).elim hassigned hdeclared

/-- What the reference to the counter stands for behind the rounds of the emitted loop. -/
theorem value?_reference_behind (place : Place) (table : SymbolTable) {op : BinaryOp}
    {words : List String} {values : List Int} {start bound last : Int} {env later : Python.Env}
    (hcounts : Counts op bound loop.step start values last)
    (hrounds : Python.Rounds loop.counter words values env later)
    (hcounter : loop.counter ∉ words)
    (hholder : ∀ holder ∈ place.fieldHolder? table loop.counter,
      holder ≠ loop.counter ∧ holder ∉ words) :
    (place.reference table loop.counter).tree.value? later =
      if values = [] ∨ (place.fieldHolder? table loop.counter).isSome then
        (place.reference table loop.counter).tree.value? env
      else some (.int (last - loop.step)) := by
  unfold Place.reference
  cases hfield : place.fieldHolder? table loop.counter with
  | some holder =>
      obtain ⟨hne, hwords⟩ := hholder holder hfield
      rw [if_pos (.inr rfl)]
      exact hrounds.members_eq hne hwords hcounter
  | none =>
      have hvalue : later.names loop.counter =
          (values.getLast?.map Value.int).or (env.names loop.counter) :=
        hrounds.names_counter hcounter
      by_cases hvalues : values = []
      · rw [if_pos (.inl hvalues)]
        exact hvalue.trans (by rw [hvalues]; rfl)
      · rw [if_neg (by simp [hvalues])]
        exact hvalue.trans (by rw [hcounts.getLast?_eq hvalues]; rfl)

/-- Behind the loop over a range, its counter holds the integer of the last round, a step short of
where the counter of the source ends; without a round, or if the counter is a field, it holds
what it held before. It is right only if that happens to be where the counter ends. -/
theorem counter_behind_range (hdetect : RangeLoop.detect? init condition update body = some loop)
    (hinside : place.Inside table)
    (hdeclared : .declared loop.counter ∉ body.mentioned)
    (hholder : ∀ holder ∈ place.fieldHolder? table loop.counter, holder ≠ loop.counter ∧
      holder ∉ body.assigned ∧ .declared holder ∉ body.mentioned)
    (hout : (stmt place shared (.forLoop (some init) condition update body)).outcome table =
      (.ok out, after)) :
    ∃ op position start bound stop code,
      condition = some (.binary op (.name loop.counter position) loop.stop) ∧
      (DecimalAmounts update → ∀ store i, Store.read store loop.counter = some (.int i) →
        performAll store update = store.assign loop.counter (.int (i + loop.step))) ∧
      expr place table.enter loop.start = .ok start ∧
      expr place table.enter loop.stop = .ok bound ∧
      (start.Spelled → bound.Spelled → Delimit loop start bound stop) ∧
      out = [.forRange (.name loop.counter) start stop loop.step code] ∧
      place.reference after loop.counter = place.reference table loop.counter ∧
      ∀ s b, ∃ last, Counts op b loop.step s (rangeOf loop.inclusive s b loop.step).integers last ∧
        ∀ env later, Python.Rounds loop.counter (allTargets code)
            (rangeOf loop.inclusive s b loop.step).integers env later →
          let counter := (place.reference table loop.counter).tree
          let kept := (rangeOf loop.inclusive s b loop.step).integers = [] ∨
            (place.fieldHolder? table loop.counter).isSome
          (kept → counter.value? later = counter.value? env) ∧
          (¬ kept → counter.value? later = some (.int (last - loop.step))) ∧
          (counter.value? later = some (.int last) ↔
            kept ∧ counter.value? env = some (.int last)) := by
  obtain ⟨op, position, start, bound, code, inner, hcondition, hinclusive, hstep, hundisturbed,
    hstart, hbound, hbody, rfl⟩ := exists_of_counting hdetect hout
  have hnonzero := step_ne_zero hinclusive
  have hcounter := not_mem_targets hbody (undisturbed_iff.mp hundisturbed).1 hdeclared
  refine ⟨op, position, start, bound, _, code, hcondition,
    fun hdecimal store i hread => performAll_of_step? hstep hdecimal hread, hstart, hbound,
    delimit hnonzero hbound, by rw [reference_counted (SymbolTable.inside_enter hinside)],
    reference_behind_loop hout loop.counter, fun s b => ?_⟩
  have hcounts : Counts op b loop.step s (rangeOf loop.inclusive s b loop.step).integers _ :=
    (counts_iff hinclusive).mpr ⟨rfl, rfl⟩
  refine ⟨_, hcounts, fun env later hrounds => ?_⟩
  have hvalue := value?_reference_behind place table hcounts hrounds hcounter
    fun holder hfield =>
      have ⟨hne, hassigned, hnone⟩ := hholder holder hfield
      ⟨hne, not_mem_targets hbody hassigned hnone⟩
  refine ⟨fun hkept => hvalue.trans (if_pos hkept), fun hleft => hvalue.trans (if_neg hleft), ?_⟩
  rw [hvalue]
  split
  · next hkept => exact (and_iff_right hkept).symm
  · next hleft =>
      refine iff_of_false (fun hsame => hnonzero ?_) fun hboth => hleft hboth.1
      have := Value.int.inj (Option.some.inj hsame)
      omega

/-- Behind the rounds for zero, one and two the counter holds two, where the source has it at
three. -/
theorem counter_behind_range_three :
    let init : Stmt := .expression (.assign "i" none (.literal (.number "0") .start) .start)
    let condition : Expr := .binary .lt (.name "i" .start) (.literal (.number "3") .start)
    let update : List Expr := [.step "i" .increment .behind .start]
    let table : SymbolTable := ⟨[("i", declared .int .start)], []⟩
    ∃ code, (stmt .outside false (.forLoop (some init) (some condition) update .empty)).outcome
        table = (.ok [.forRange (.name "i") (.number "0") (.number "3") 1 code], table) ∧
      Counts .lt 3 1 0 [0, 1, 2] 3 ∧
      ∀ env later, Python.Rounds "i" (allTargets code) [0, 1, 2] env later →
        later.names "i" = some (.int 2) := by
  intro init condition update table
  have hdetect : RangeLoop.detect? init (some condition) update .empty =
      some ⟨"i", .int, .start, .literal (.number "0") .start, .literal (.number "3") .start, 1,
        false⟩ := by
    decide
  have hout : (stmt .outside false
      (.forLoop (some init) (some condition) update .empty)).outcome table =
        (.ok [.forRange (.name "i") (.number "0") (.number "3") 1 []], table) := rfl
  have hinside : Place.outside.Inside table := fun cls hclass => by cases hclass
  obtain ⟨op, position, start, bound, stop, code, hcondition, -, -, -, -, hsame, -, hbehind⟩ :=
    counter_behind_range hdetect hinside List.not_mem_nil (fun holder hholder => by cases hholder)
      hout
  obtain ⟨rfl, -, -⟩ := Expr.binary.inj (Option.some.inj hcondition)
  cases hsame
  have hintegers : (rangeOf false 0 3 1).integers = [0, 1, 2] := by decide
  obtain ⟨last, hcounts, hrounds⟩ := hbehind 0 3
  rw [hintegers] at hcounts hrounds
  obtain rfl : last = 3 := ((counts_iff rfl).mp hcounts).2
  refine ⟨[], hout, hcounts, fun env later h => ?_⟩
  obtain ⟨-, hleft, -⟩ := hrounds env later h
  exact hleft (by simp [Place.fieldHolder?, Place.outside])

end Lowering

namespace Program

/-- The counter of the loop is printed behind it: Java has it at three, Python at two. -/
theorem counter_printed_behind_loop :
    ∃ program text code,
      ofSource "int i = 9; for (i = 0; i < 3; i++) \x7b \x7d System.out.println(i);" = .ok program ∧
      program.diagnostics = [] ∧
      program.execution.Halts ["3"] ∧
      program.toPython = .ok text ∧ Python.ReadsAs text code ∧
      (Python.execution code).Halts ["2"] := by
  let text := "i = 9\nfor i in range(0, 3):\n    pass\nprint(i)\n"
  obtain ⟨program, hsource, hclean, hhalts, htext⟩ :=
    exists_program "int i = 9; for (i = 0; i < 3; i++) \x7b \x7d System.out.println(i);"
      (fun program => program.diagnostics = [] ∧
        program.execution.haltsWithin 3 ["3"] = true ∧ program.toPython = .ok text)
      (by decide +kernel)
  have hrows : Python.rowsOf text = [⟨0, "i = 9".toList⟩,
      ⟨0, "for i in range(0, 3):".toList⟩, ⟨4, "pass".toList⟩, ⟨0, "print(i)".toList⟩] := by
    decide +kernel
  have hblock : Python.Block 0 (Python.rowsOf text) [.line "i = 9".toList,
      .clause "for i in range(0, 3):".toList [.line "pass".toList], .line "print(i)".toList] :=
    hrows ▸ .line (by decide) (.clause (by decide) (.line (by decide) .nil) (List.cons_ne_nil _ _)
      (.line (by decide) .nil))
  obtain ⟨code, hread, hshort⟩ := Python.exists_halting 3 ["2"] hblock (by
    simp only [Python.codeOf, Python.partsOf]
    decide +kernel)
  exact ⟨program, text, code, hsource, hclean, Execution.halts_of_within hhalts, htext, hread,
    hshort⟩

end Program

end MiniJava
