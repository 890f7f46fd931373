import MiniJava.Proofs.Lowering.Counting

/-!
# Integers of ranges

A range of Python is given in closed form: how many integers it has, and the integer at each place.
The counter of a loop is given by the rounds of the loop: it goes on by a step as long as its
comparison with the bound holds. A counting loop and the range that is emitted for it go over the
same integers, so the loop comes to an end, at the first integer behind those of the range.
-/

namespace MiniJava

open Run (before)

namespace Python.Range

/-- How many integers a range has. -/
def length (range : Range) : Nat :=
  if 0 < range.step then ((range.stop - range.start + range.step - 1) / range.step).toNat
  else ((range.start - range.stop - range.step - 1) / -range.step).toNat

/-- The integers of a range, in order. -/
def integers (range : Range) : List Int :=
  (List.range range.length).map fun (i : Nat) => range.start + range.step * i

variable {start stop step : Int}

/-- A place is one of the range if the integer at it comes before the end. -/
theorem lt_length_iff (hstep : step ≠ 0) (i : Nat) :
    i < length ⟨start, stop, step⟩ ↔ before step (start + step * i) stop = true := by
  rw [length, before]
  dsimp only
  split
  · next hpos =>
      rw [Int.lt_toNat, Int.lt_iff_add_one_le, Int.le_ediv_iff_mul_le hpos]
      simp only [hpos, decide_true, Bool.true_and, Bool.or_eq_true, decide_eq_true_eq,
        Int.not_lt.mpr (Int.le_of_lt hpos), Bool.and_eq_true, false_and, or_false]
      rw [Int.add_mul, Int.one_mul, Int.mul_comm]
      omega
  · next hneg =>
      have hpos : 0 < -step := by omega
      rw [Int.lt_toNat, Int.lt_iff_add_one_le, Int.le_ediv_iff_mul_le hpos]
      simp only [hneg, decide_false, Bool.false_and, Bool.false_or, Bool.and_eq_true,
        decide_eq_true_eq, show step < 0 by omega, true_and]
      rw [Int.add_mul, Int.one_mul, Int.mul_neg, Int.mul_comm]
      omega

theorem integers_of_not_before (hstep : step ≠ 0) (h : before step start stop = false) :
    integers ⟨start, stop, step⟩ = [] := by
  have hlength : ¬ 0 < length ⟨start, stop, step⟩ := by
    rw [lt_length_iff hstep]
    simp [h]
  rw [integers, Nat.eq_zero_of_not_pos hlength]
  rfl

/-- A range with a first integer goes on as the range behind it. -/
theorem integers_of_before (hstep : step ≠ 0) (h : before step start stop = true) :
    integers ⟨start, stop, step⟩ = start :: integers ⟨start + step, stop, step⟩ := by
  have hplace (i : Nat) : start + step * ((i + 1 : Nat) : Int) = start + step + step * i := by
    rw [Int.natCast_add, Int.mul_add]
    omega
  have hlength : length ⟨start, stop, step⟩ = length ⟨start + step, stop, step⟩ + 1 := by
    have hlt (i : Nat) : i < length ⟨start, stop, step⟩ ↔
        i < length ⟨start + step, stop, step⟩ + 1 := by
      rw [lt_length_iff hstep]
      cases i with
      | zero => simp [h]
      | succ i => rw [hplace, ← lt_length_iff hstep, Nat.add_lt_add_iff_right]
    have hleft := hlt (length ⟨start, stop, step⟩)
    have hright := hlt (length ⟨start + step, stop, step⟩ + 1)
    omega
  rw [integers, hlength, List.range_succ_eq_map, List.map_cons, List.map_map, integers]
  simp only [Function.comp_def, Nat.succ_eq_add_one, hplace]
  simp

end Python.Range

/-- The integers that a counter holds in front of the rounds of a loop that compares it with a
bound and moves it by a step, and the first one for which the comparison fails. -/
inductive Counts (op : BinaryOp) (bound step : Int) : Int → List Int → Int → Prop
  | stops {i : Int} :
      op.result? .truncated (.int i) (.int bound) = some (.truth false) →
      Counts op bound step i [] i
  | goesOn {i last : Int} {rest : List Int} :
      op.result? .truncated (.int i) (.int bound) = some (.truth true) →
      Counts op bound step (i + step) rest last → Counts op bound step i (i :: rest) last

namespace RangeLoop

variable {op : BinaryOp} {bound step start last : Int} {inclusive : Bool} {values : List Int}

/-- The range that goes over the integers of a counter. -/
def rangeOf (inclusive : Bool) (start bound step : Int) : Python.Range :=
  ⟨start, stopBehind inclusive step bound, step⟩

/-- The counter takes the integers of the range, and no loop takes others. -/
theorem counts_iff (h : inclusive? op step = some inclusive) :
    Counts op bound step start values last ↔
      values = (rangeOf inclusive start bound step).integers ∧
        last = start + step * values.length := by
  have hstep := step_ne_zero h
  have hresult (i : Int) := result?_of_inclusive? h i bound
  constructor
  · intro hcounts
    induction hcounts with
    | stops htest =>
        rw [hresult] at htest
        rw [rangeOf, Python.Range.integers_of_not_before hstep (by simpa using htest)]
        simp
    | @goesOn i last rest htest _ ih =>
        rw [hresult] at htest
        obtain ⟨hrest, hlast⟩ := ih
        rw [rangeOf, Python.Range.integers_of_before hstep (by simpa using htest)]
        refine ⟨congrArg _ hrest, ?_⟩
        rw [hlast, List.length_cons, Int.natCast_add, Int.mul_add]
        omega
  · rintro ⟨hvalues, rfl⟩
    induction values generalizing start with
    | nil =>
        cases hbefore : before step start (stopBehind inclusive step bound) with
        | false => simpa using Counts.stops (by rw [hresult, hbefore])
        | true =>
            rw [rangeOf, Python.Range.integers_of_before hstep hbefore] at hvalues
            cases hvalues
    | cons first rest ih =>
        cases hbefore : before step start (stopBehind inclusive step bound) with
        | false =>
            rw [rangeOf, Python.Range.integers_of_not_before hstep hbefore] at hvalues
            cases hvalues
        | true =>
            rw [rangeOf, Python.Range.integers_of_before hstep hbefore] at hvalues
            obtain ⟨rfl, hrest⟩ := List.cons.inj hvalues
            have hend : first + step * ((first :: rest).length : Int) =
                first + step + step * rest.length := by
              rw [List.length_cons, Int.natCast_add, Int.mul_add]
              omega
            rw [hend]
            exact .goesOn (by rw [hresult, hbefore]) (ih hrest)

end RangeLoop

namespace Lowering

open RangeLoop
open Target (rangeArguments stepArguments)

/-- Python reads the call of a range in one way, also if its end may be written in another way. -/
theorem reads_range_iff {start stop written : Target.Expr} (hstart : start.Spelled)
    (hwritten : written.Spelled) (htext : stop.toText = written.toText) (step : Int)
    (tree : Python.Tree) :
    Python.Reads ("range(" ++ rangeArguments start stop step ++ ")") tree ↔
      tree = .call (.name "range")
        (start.tree :: written.tree :: (stepArguments step).map Target.Expr.tree) := by
  have harguments : ∀ e ∈ written :: stepArguments step, e.Spelled :=
    List.forall_mem_cons.mpr ⟨hwritten, Target.spelled_stepArguments step⟩
  have hsplit : ("range(" ++ rangeArguments start stop step ++ ")").toList =
      "range".toList ++ '(' :: (start.toText.toList ++
        (Target.Expr.argumentChars (written :: stepArguments step) ++ ')' :: [])) := by
    have hsame : rangeArguments start stop step = rangeArguments start written step := by
      rw [rangeArguments, htext, rangeArguments]
    simp [hsame, Target.toList_rangeArguments]
  have htokens := Target.Expr.tokens?_call (show Python.isIdentifier "range" = true by decide)
    hstart harguments []
  have hderives : Python.Derives (.level 1) _ _ := (Target.Expr.derives_call
    (show Python.isName "range" = true by decide) hstart harguments).primary.loosen (by decide)
  have hreads : Python.Reads ("range(" ++ rangeArguments start stop step ++ ")")
      (.call (.name "range") (start.tree :: written.tree ::
        (stepArguments step).map Target.Expr.tree)) := by
    refine ⟨_, ?_, hderives⟩
    rw [hsplit, htokens, Python.tokens?_nil, Option.map_some, List.append_nil]
  constructor
  · exact fun hother => hother.unique hreads
  · rintro rfl
    exact hreads

theorem stepArguments_eq_nil_iff (step : Int) : stepArguments step = [] ↔ step = 1 := by
  simp [stepArguments]

theorem value?_stepArguments (step : Int) (env : Python.Env) :
    ∀ e ∈ stepArguments step, e.tree.value? env = some (.int step) := by
  unfold stepArguments
  split
  · simp
  · simpa using Target.Expr.value?_integer step env

/-- A literal that can be lowered and that Python takes for an integer is that integer. -/
theorem eq_of_literal {place : Place} {table : SymbolTable} {text : String} {position : Position}
    {out : Target.Expr} (h : expr place table (.literal (.number text) position) = .ok out)
    {env : Python.Env} {n b : Int} (hn : Text.int64? text = some n)
    (hb : out.tree.value? env = some (.int b)) : n = b := by
  cases h
  obtain ⟨m, hm, hvalue⟩ := Option.map_eq_some_iff.mp hb
  cases hvalue
  exact Python.eq_of_int64? hn hm

/-- Python reads these arguments of a range in one way, and they are the start, the end behind the
bound and, unless it is one, the step of the range of the counter. -/
def Delimit (loop : RangeLoop) (start bound stop : Target.Expr) : Prop :=
  ∃ written : Target.Expr,
    (∀ tree, Python.Reads ("range(" ++ rangeArguments start stop loop.step ++ ")") tree ↔
      tree = .call (.name "range")
        (start.tree :: written.tree :: (stepArguments loop.step).map Target.Expr.tree)) ∧
    ∀ env a b, bound.tree.value? env = some (.int b) →
      written.tree.value? env = some (.int (rangeOf loop.inclusive a b loop.step).stop)

theorem delimit {place : Place} {table : SymbolTable} {loop : RangeLoop} (hstep : loop.step ≠ 0)
    {start bound : Target.Expr} (hbound : expr place table loop.stop = .ok bound)
    (hstart : start.Spelled) (hspelled : bound.Spelled) :
    Delimit loop start bound (if loop.inclusive then boundBehind loop bound else bound) := by
  obtain ⟨written, hwritten, htext, hvalue⟩ := exists_written loop hstep hspelled
  refine ⟨written, reads_range_iff hstart hwritten htext loop.step, fun env a b htree => ?_⟩
  refine hvalue env b (fun text position n hstop hn => ?_) htree
  exact eq_of_literal (hstop ▸ hbound) hn htree

section Counting

variable {init body : Stmt} {condition : Option Expr} {update : List Expr} {loop : RangeLoop}
  {place : Place} {shared : Bool} {table after : SymbolTable} {out : List Target.Stmt}

/-- What a counting loop is made of, and what its lowering is made of. -/
theorem exists_of_counting (hdetect : RangeLoop.detect? init condition update body = some loop)
    (hout : (stmt place shared (.forLoop (some init) condition update body)).outcome table =
      (.ok out, after)) :
    ∃ op position start bound code inner,
      condition = some (.binary op (.name loop.counter position) loop.stop) ∧
      inclusive? op loop.step = some loop.inclusive ∧
      step? loop.counter update = some loop.step ∧
      undisturbed loop.counter loop.stop body = true ∧
      expr place table.enter loop.start = .ok start ∧
      expr place table.enter loop.stop = .ok bound ∧
      (stmt place true body).outcome (counted loop table.enter).enter = (.ok code, inner) ∧
      out = [.forRange (place.reference (counted loop table.enter) loop.counter) start
        (if loop.inclusive then boundBehind loop bound else bound) loop.step code] := by
  obtain ⟨-, op, position, hcondition, hinclusive, hstep, hundisturbed⟩ := exists_of_detect hdetect
  obtain ⟨start, stop, code, inner, hbounds, hbody, -, rfl⟩ := exists_of_range hdetect hout
  obtain ⟨_, bound, hstart, hbound, -, hpair⟩ := exists_of_rangeBounds hbounds
  obtain ⟨rfl, rfl⟩ := Prod.mk.inj hpair
  have hlowered {e : Expr} {t : Target.Expr}
      (h : (value place e).outcome table.enter = (.ok t, table.enter)) :
      expr place table.enter e = .ok t := congrArg Prod.fst h
  exact ⟨op, position, start, bound, code, inner, hcondition, hinclusive, hstep, hundisturbed,
    hlowered hstart, hlowered hbound, hbody, rfl⟩

/-- A counting loop becomes a loop over a range. Python reads the arguments in one way; wherever
start and bound are integers, they make the range that has the integers of the counter, one by one,
and the loop over the counter comes to an end. -/
theorem range_visits_counter (hdetect : RangeLoop.detect? init condition update body = some loop)
    (hdecimal : DecimalAmounts update)
    (hout : (stmt place shared (.forLoop (some init) condition update body)).outcome table =
      (.ok out, after)) :
    ∃ op position counter start stop bound code,
      condition = some (.binary op (.name loop.counter position) loop.stop) ∧
      (∀ store i, Store.read store loop.counter = some (.int i) →
        performAll store update = store.assign loop.counter (.int (i + loop.step))) ∧
      out = [.forRange counter start stop loop.step code] ∧
      expr place table.enter loop.start = .ok start ∧
      expr place table.enter loop.stop = .ok bound ∧
      (stepArguments loop.step = [] ↔ loop.step = 1) ∧
      (start.Spelled → bound.Spelled → ∃ written : Target.Expr,
        (∀ tree, Python.Reads ("range(" ++ rangeArguments start stop loop.step ++ ")") tree ↔
          tree = .call (.name "range")
            (start.tree :: written.tree :: (stepArguments loop.step).map Target.Expr.tree)) ∧
        ∀ env s b, start.tree.value? env = some (.int s) →
          bound.tree.value? env = some (.int b) →
            let range := rangeOf loop.inclusive s b loop.step
            written.tree.value? env = some (.int range.stop) ∧
            (∀ e ∈ stepArguments loop.step, e.tree.value? env = some (.int loop.step)) ∧
            ∀ values last, Counts op b loop.step s values last ↔
              values = range.integers ∧ last = s + loop.step * values.length) := by
  obtain ⟨op, position, start, bound, code, inner, hcondition, hinclusive, hstep, -, hstart, hbound,
    -, rfl⟩ := exists_of_counting hdetect hout
  refine ⟨op, position, _, start, _, bound, code, hcondition,
    fun store i hread => performAll_of_step? hstep hdecimal hread, rfl, hstart, hbound,
    stepArguments_eq_nil_iff loop.step, fun hspelled hboundSpelled => ?_⟩
  obtain ⟨written, hreads, hvalue⟩ :=
    delimit (step_ne_zero hinclusive) hbound hspelled hboundSpelled
  exact ⟨written, hreads, fun env s b _ htree => ⟨hvalue env s b htree,
    value?_stepArguments loop.step env, fun values last => counts_iff hinclusive⟩⟩

end Counting

/-- The loop over the odd numbers up to `n`: with `n` at six, the counter takes one, three and five,
and ends at seven. -/
theorem range_visits_counter_odd :
    let init : Stmt := .declare ⟨[], ⟨"int", 0⟩, "i", some (.literal (.number "1") .start), .start⟩
    let condition : Expr := .binary .le (.name "i" .start) (.name "n" .start)
    let update : List Expr :=
      [.assign "i" (some .add) (.literal (.number "2") .start) .start]
    ∃ stop code written, (stmt .outside false
        (.forLoop (some init) (some condition) update .empty)).outcome .empty =
          (.ok [.forRange (.name "i") (.number "1") stop 2 code], .empty) ∧
      rangeArguments (.number "1") stop 2 = "1, n + 1, 2" ∧
      (∀ tree, Python.Reads "range(1, n + 1, 2)" tree ↔
        tree = .call (.name "range") [.number "1", written, .number "2"]) ∧
      written.value? ⟨fun _ => some (.int 6), fun _ _ => none⟩ = some (.int 7) ∧
      ∀ values last, Counts .le 6 2 1 values last ↔ values = [1, 3, 5] ∧ last = 7 := by
  intro init condition update
  let env : Python.Env := ⟨fun _ => some (.int 6), fun _ _ => none⟩
  have hdetect : RangeLoop.detect? init (some condition) update .empty =
      some ⟨"i", .int, .start, .literal (.number "1") .start, .name "n" .start, 2, true⟩ := by
    decide
  have hdecimal : DecimalAmounts update := by
    rintro target op text place position hmem
    cases List.mem_singleton.mp hmem
    decide
  have hout : (stmt .outside false
      (.forLoop (some init) (some condition) update .empty)).outcome .empty =
        (.ok [.forRange (.name "i") (.number "1")
          (.binary .add (.name "n") (.number "1")) 2 []], .empty) := rfl
  obtain ⟨op, position, counter, start, stop, bound, code, hcondition, -, hsame, hstart, hbound, -,
    hrange⟩ := range_visits_counter hdetect hdecimal hout
  obtain ⟨rfl, -, -⟩ := Expr.binary.inj (Option.some.inj hcondition)
  cases hsame
  cases hstart
  cases hbound
  obtain ⟨written, hreads, hvalues⟩ := hrange (show Python.isDecimal ['1'] = true by decide)
    (show Python.isName "n" = true by decide)
  obtain ⟨hend, -, hcounts⟩ := hvalues env 1 6 (by decide) rfl
  have hintegers : (rangeOf true 1 6 2).integers = [1, 3, 5] := by decide
  refine ⟨_, _, written.tree, hout, by decide, hreads, hend, fun values last => ?_⟩
  rw [hcounts, hintegers]
  refine and_congr_right fun hvalues => ?_
  rw [hvalues]
  exact Iff.rfl

end Lowering

end MiniJava
