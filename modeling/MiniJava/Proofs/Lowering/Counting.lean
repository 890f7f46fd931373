import MiniJava.Proofs.Lowering.Simulation

/-!
# Runs of counting loops

A loop that is recognized as counting visits the integers of the range that is emitted for it. Its
bound has the same value in every round, because no name in it is assigned, and its only update
moves the counter by the step of the range.
-/

namespace MiniJava

open Python (Vars)

namespace Expr

/-- The value of an expression depends on the names that it reads. -/
theorem value?_congr {read other : String → Option Value} (e : Expr)
    (h : ∀ name ∈ e.reads, read name = other name) : e.value? read = e.value? other := by
  unfold value?
  induction e with
  | literal value position => rfl
  | name word position => exact h word List.mem_cons_self
  | unary op operand ih => rw [valueBy, valueBy, ih h]
  | binary op lhs rhs ihl ihr =>
      obtain ⟨hl, hr⟩ := List.forall_mem_append.mp h
      rw [valueBy, valueBy, ihl hl, ihr hr]
  | assign target op value position => rfl
  | step target op form position => rfl

theorem names_eq_reads {types : String → Option ValueType} {e : Expr} {type : ValueType}
    (h : e.coreType? types = some type) : e.names = e.reads := by
  induction e generalizing type with
  | literal value position => rfl
  | name word position => rfl
  | unary op operand ih =>
      obtain ⟨inner, hinner, -⟩ := Option.bind_eq_some_iff.mp h
      exact ih hinner
  | binary op lhs rhs ihl ihr =>
      obtain ⟨left, hleft, hrest⟩ := Option.bind_eq_some_iff.mp h
      obtain ⟨right, hright, -⟩ := Option.bind_eq_some_iff.mp hrest
      rw [names, reads, ihl hleft, ihr hright]
  | assign target op value position => cases h
  | step target op form position => cases h

end Expr

/-- The 64-bit integer that a literal is read as is the one that Python takes it for. -/
theorem Python.eq_of_int64? {text : String} {n b : Int} (hn : Text.int64? text = some n)
    (hb : Python.integer? text = some b) : n = b := by
  obtain ⟨-, hvalue⟩ := Option.ite_none_right_eq_some.mp hb
  obtain ⟨m, hm, rfl⟩ := Option.map_eq_some_iff.mp hvalue
  obtain ⟨hsigned, -⟩ := Option.filter_eq_some_iff.mp hn
  exact Option.some.inj (hsigned.symm.trans (Text.signedValue?_of_magnitude? hm))

/-- The 64-bit integer that a decimal literal is read as is its value. -/
theorem Literal.value?_of_int64? {text : String} {n : Int}
    (h : isDecimalInteger text.toList = true) (hn : Text.int64? text = some n) :
    (Literal.number text).value? = some (.int n) := by
  obtain ⟨value, hvalue, htree⟩ :=
    exists_integer (isDecimal_of_isDecimalInteger h) (isIntegral_of_isDecimalInteger h)
  obtain rfl := Python.eq_of_int64? hn htree
  rw [value?, hvalue]
  rfl

namespace RangeLoop

/-- Where a range ends whose bound is reached or not. -/
def stopBehind (inclusive : Bool) (step bound : Int) : Int :=
  if inclusive then bound + step.sign else bound

/-- The comparison says whether the counter comes before the end of the range. -/
theorem result?_of_inclusive? {op : BinaryOp} {step : Int} {inclusive : Bool}
    (h : inclusive? op step = some inclusive) (i bound : Int) :
    op.result? .truncated (.int i) (.int bound) =
      some (.truth (Run.before step i (stopBehind inclusive step bound))) := by
  have hforward (stop : Int) (hstep : 0 < step) :
      Run.before step i stop = decide (i < stop) := by
    simp [Run.before, hstep, Int.not_lt.mpr (Int.le_of_lt hstep)]
  have hbackward (stop : Int) (hstep : step < 0) :
      Run.before step i stop = decide (stop < i) := by
    simp [Run.before, hstep, Int.not_lt.mpr (Int.le_of_lt hstep)]
  unfold inclusive? at h
  split at h
  · obtain ⟨hstep, heq⟩ := Option.ite_none_right_eq_some.mp h
    cases heq
    rw [hforward _ hstep]
    rfl
  · obtain ⟨hstep, heq⟩ := Option.ite_none_right_eq_some.mp h
    cases heq
    rw [hbackward _ hstep]
    rfl
  · obtain ⟨hstep, heq⟩ := Option.ite_none_right_eq_some.mp h
    cases heq
    have hstop : i ≤ bound ↔ i < stopBehind true step bound := by
      rw [stopBehind, if_pos rfl, Int.sign_eq_one_of_pos hstep, Int.lt_add_one_iff]
    rw [hforward _ hstep]
    exact congrArg (fun b => some (Value.truth b)) (decide_eq_decide.mpr hstop)
  · obtain ⟨hstep, heq⟩ := Option.ite_none_right_eq_some.mp h
    cases heq
    have hstop : bound ≤ i ↔ stopBehind true step bound < i := by
      rw [stopBehind, if_pos rfl, Int.sign_eq_neg_one_of_neg hstep]
      omega
    rw [hbackward _ hstep]
    exact congrArg (fun b => some (Value.truth b)) (decide_eq_decide.mpr hstop)
  · cases h

/-- The amounts of the updates are written in decimal. -/
def DecimalAmounts (update : List Expr) : Prop :=
  ∀ target op text place position,
    Expr.assign target (some op) (.literal (.number text) place) position ∈ update →
      isDecimalInteger text.toList = true

/-- The updates move the counter by the step. -/
theorem performAll_of_step? {counter : String} {update : List Expr} {step : Int}
    (h : step? counter update = some step) (hdecimal : DecimalAmounts update)
    {store : Store} {i : Int} (hread : store.read counter = some (.int i)) :
    performAll store update = store.assign counter (.int (i + step)) := by
  have hsingle (change : Expr) : performAll store [change] = change.perform store := by
    simp [performAll]
  unfold step? at h
  split at h
  · next target op form position =>
      obtain ⟨rfl, hmoves⟩ := Option.ite_none_right_eq_some.mp h
      cases op with
      | increment =>
          cases hmoves
          simp [hsingle, Expr.perform, hread, BinaryOp.result?, BinaryOp.ofInts?]
      | decrement =>
          cases hmoves
          simp [hsingle, Expr.perform, hread, BinaryOp.result?, BinaryOp.ofInts?, Int.sub_eq_add_neg]
  · next target op amount position position' =>
      obtain ⟨rfl, hmoves⟩ := Option.ite_none_right_eq_some.mp h
      have hamount {n : Int} (hn : Text.int64? amount = some n) :
          (Expr.literal (.number amount) position).value? store.read = some (.int n) :=
        Literal.value?_of_int64? (hdecimal _ _ _ _ _ List.mem_cons_self) hn
      split at hmoves
      · simp [hsingle, Expr.perform, hread, hamount hmoves, BinaryOp.result?, BinaryOp.ofInts?]
      · obtain ⟨hnegated, -⟩ := Option.filter_eq_some_iff.mp hmoves
        obtain ⟨n, hn, rfl⟩ := Option.map_eq_some_iff.mp hnegated
        simp [hsingle, Expr.perform, hread, hamount hn, BinaryOp.result?, BinaryOp.ofInts?,
          Int.sub_eq_add_neg]
      · cases hmoves
  · cases h

theorem step_ne_zero {op : BinaryOp} {step : Int} {inclusive : Bool}
    (h : inclusive? op step = some inclusive) : step ≠ 0 := by
  rintro rfl
  unfold inclusive? at h
  split at h <;> cases h

end RangeLoop

namespace Lowering

open Run RangeLoop

variable {types : String → Option ValueType} {scope : List String}

/-- The end of a range as it is emitted is the bound, moved if the bound itself is reached. -/
theorem exists_written (loop : RangeLoop) (hstep : loop.step ≠ 0) {bound : Target.Expr}
    (hspelled : bound.Spelled) :
    ∃ written : Target.Expr, written.Spelled ∧
      (if loop.inclusive then boundBehind loop bound else bound).toText = written.toText ∧
      ∀ env b, (∀ text position n, loop.stop = .literal (.number text) position →
          Text.int64? text = some n → n = b) →
        bound.tree.value? env = some (.int b) →
          written.tree.value? env = some (.int (stopBehind loop.inclusive loop.step b)) := by
  cases hinclusive : loop.inclusive with
  | false => exact ⟨bound, hspelled, rfl, fun env b _ htree => htree⟩
  | true =>
      rw [if_pos rfl, boundBehind]
      split
      · next n hn =>
          obtain ⟨text, position, hstop, hread⟩ := exists_of_literalBound? hn
          refine ⟨.integer (n + loop.step.sign), Target.Expr.spelled_integer _,
            (Target.Expr.toText_integer _).symm, fun env b hliteral _ => ?_⟩
          obtain rfl := hliteral text position n hstop hread
          exact Target.Expr.value?_integer _ env
      · refine ⟨.binary _ bound (.number "1"),
          And.intro hspelled (Target.Expr.spelled_integer 1), rfl, fun env b _ htree => ?_⟩
        have hone : (Target.Expr.number "1").tree.value? env = some (.int 1) :=
          Target.Expr.value?_integer 1 env
        rw [stopBehind, if_pos rfl]
        split
        · next hpos =>
            rw [Int.sign_eq_one_of_pos hpos]
            exact Python.Tree.value?_binary htree hone rfl
        · next hpos =>
            rw [Int.sign_eq_neg_one_of_neg (by omega)]
            exact Python.Tree.value?_binary htree hone rfl

/-- Python takes the integers of the range from the emitted arguments. -/
theorem range?_eq {start stop : Python.Tree} {vars : Vars} {a b step : Int}
    (hrange : vars "range" = none) (hstart : start.value? vars.env = some (.int a))
    (hstop : stop.value? vars.env = some (.int b)) (hstep : step ≠ 0) :
    Python.range? start stop ((Target.stepArguments step).map Target.Expr.tree).head? vars =
      some ⟨a, b, step⟩ := by
  have hint {e : Python.Tree} {n : Int} (h : e.value? vars.env = some (.int n)) :
      e.int? vars = some n := by
    rw [Python.Tree.int?, h]
    rfl
  rw [Python.range?, hrange, hint hstart, hint hstop]
  by_cases hone : step = 1
  · simp [Target.stepArguments, hone]
  · simp [Target.stepArguments, hone, hint (Target.Expr.value?_integer step vars.env), hstep]

section Counted

variable {decl : VarDecl} {start bound : Expr} {op : BinaryOp} {position : Position}
  {update : List Expr} {body : Stmt} {step : Int} {inclusive : Bool}
  {startTree stopTree : Python.Tree} {code : List Python.Code}

/-- A counting loop runs like the loop over its range if the body does. -/
theorem simulates_range (hinit : decl.init = some start) (hfresh : decl.name ∉ scope)
    (hfree : decl.name ∉ Python.reserved) (htype : types decl.name = some .int)
    (hstart : ∀ store vars, Mirrors types scope store vars →
      SameValue .int (start.value? store.read) (startTree.value? vars.env))
    (hstop : ∀ store vars, Mirrors types scope store vars → ∃ b,
      bound.value? store.read = some (.int b) ∧
        stopTree.value? vars.env = some (.int (stopBehind inclusive step b)))
    (hbound : ∀ name ∈ bound.reads, name ∈ scope ∧ name ∉ body.assigned)
    (hcounter : decl.name ∉ body.assigned) (hinclusive : inclusive? op step = some inclusive)
    (hupdate : ∀ (store : Store) (i : Int), store.read decl.name = some (.int i) →
      performAll store update = store.assign decl.name (.int (i + step)))
    (hbody : Simulates types (decl.name :: scope) (Mirrors types (decl.name :: scope))
      (fun rounds store => body.run rounds store) code) :
    Simulates types scope (Mirrors types scope)
      (fun rounds store => (Stmt.forLoop (some (.declare decl))
        (some (.binary op (.name decl.name position) bound)) update body).run rounds store)
      [.forRange decl.name startTree stopTree
        ((Target.stepArguments step).map Target.Expr.tree).head? code] := by
  refine .single fun rounds store vars hmirrors => ?_
  obtain ⟨_, hfirst, hvalue, htree⟩ := hstart store vars hmirrors
  obtain ⟨first, rfl⟩ := Value.exists_int hfirst
  obtain ⟨b, hb, hend⟩ := hstop store vars hmirrors
  have hrange := range?_eq (hmirrors.free "range" (by decide)) htree hend (step_ne_zero hinclusive)
  -- In front of a round Python's counter may hold anything, because the round assigns it first.
  let J (i : Int) (s : Store) (t : Vars) : Prop :=
    Mirrors types (decl.name :: scope) s (t.set decl.name (.int i)) ∧
      ∀ name ∈ bound.reads, s.read name = store.read name
  have hcount {i : Int} {s : Store} {t : Vars} (h : J i s t) :
      s.read decl.name = some (.int i) := by
    obtain ⟨_, _, v, _, hread, hset⟩ := h.1.cells decl.name List.mem_cons_self
    rw [Vars.set_self] at hset
    rw [hread, ← hset]
  have htest (i : Int) (s : Store) (t : Vars) (h : J i s t) :
      loopTest (some (.binary op (.name decl.name position) bound)) s =
        some (before step i (stopBehind inclusive step b)) := by
    have hsame : bound.value? s.read = some (.int b) := (bound.value?_congr h.2).trans hb
    have hname : (Expr.name decl.name position).value? s.read = some (.int i) := hcount h
    rw [loopTest, Expr.test, Expr.value?_binary hname hsame (by simp [BinaryOp.settles]),
      result?_of_inclusive? hinclusive]
  have hround (i : Int) (s : Store) (t : Vars) (h : J i s t) :
      Alike (J (i + step)) (Stmt.roundOf update (body.run rounds) s)
        (Python.runAll rounds code (t.set decl.name (.int i))) := by
    have hinner := (hbody rounds s _ h.1).and_leaves (body.run_changesOnly rounds s)
    rw [Stmt.roundOf, ← andThen_done (Python.runAll rounds code _)]
    refine hinner.andThen fun inner vars' hboth => ?_
    obtain ⟨hmirrors', hkeeps⟩ := hboth
    have hsize : inner.length = s.length := by
      rw [← List.length_map Prod.fst, hmirrors'.names, ← h.1.names, List.length_map]
    have hread : inner.read decl.name = some (.int i) :=
      (hkeeps.read hsize hcounter).trans (hcount h)
    obtain ⟨after, hassign, hothers, hafter⟩ :=
      hmirrors'.assign (.int (i + step)) List.mem_cons_self htype hfree
    rw [hupdate inner i hread, hassign, given_some]
    refine .of_done ⟨hafter, fun name hname => ?_⟩
    obtain ⟨hscope, hkept⟩ := hbound name hname
    rw [hothers name (ne_of_mem_of_not_mem hscope hfresh), hkeeps.read hsize hkept, h.2 name hname]
  have hbegins : J first ((decl.name, .int first) :: store) vars := by
    refine ⟨hmirrors.push htype hfree, fun name hname => ?_⟩
    have hne := ne_of_mem_of_not_mem (hbound name hname).1 hfresh
    rw [Store.read, List.lookup_cons, beq_false_of_ne hne]
    rfl
  have hloop := Alike.count htest hround rounds first _ vars hbegins
  have hsize : store.length = scope.length := by rw [← hmirrors.names, List.length_map]
  rw [Python.Code.run, hrange, given_some, ← andThen_done (Run.count _ _ _ _ _ _), Stmt.run,
    Stmt.run, hinit, Option.bind_some, hvalue, given_some, done_andThen, hsize]
  refine hloop.andThen fun inner vars' hends => .of_done ?_
  obtain ⟨i, hinner, -⟩ := hends
  have hcounter : ∀ name ∈ [decl.name], name ∉ scope := by simpa using hfresh
  exact (hinner.leave hcounter).of_set hfresh hfree

end Counted

end Lowering

end MiniJava
