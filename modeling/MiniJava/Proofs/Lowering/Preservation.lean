import MiniJava.Proofs.Lowering.Counting
import MiniJava.Proofs.Lowering.Failures

/-!
# Lowered statements run alike

Every sound statement in which nothing overflows is lowered, Python can read the lines, and from
variables that mirror the store they run like the statement.
-/

namespace MiniJava

open Python (Vars)

/-- A sound statement declares nothing in the scope that it stands in, or is a declaration. -/
theorem Stmt.Sound.declared {types : String → Option ValueType} {scope : List String} {s : Stmt}
    (h : s.Sound types scope) :
    s.declared = [] ∨ ∃ decl, s = .declare decl ∧ decl.Sound types scope := by
  cases s with
  | declare decl => exact .inr ⟨decl, rfl, h⟩
  | ifElse e thenBranch elseBranch =>
      cases elseBranch with
      | none => exact .inl h.2.1
      | some elseBranch =>
          obtain ⟨-, ⟨hthen, -⟩, helse, -⟩ := h
          exact .inl (by rw [Stmt.declared, hthen, helse]; rfl)
  | whileLoop e body => exact .inl h.2.1
  | doWhile body e => cases h
  | _ => exact .inl rfl

def SoundElse (types : String → Option ValueType) (scope : List String) (branch : Option Stmt) :
    Prop :=
  ∀ s ∈ branch, s.declared = [] ∧ s.Sound types scope

theorem Stmt.Sound.branches {types : String → Option ValueType} {scope : List String} {e : Expr}
    {thenBranch : Stmt} {elseBranch : Option Stmt}
    (h : (Stmt.ifElse e thenBranch elseBranch).Sound types scope) :
    e.Sound types scope .boolean ∧ (thenBranch.declared = [] ∧ thenBranch.Sound types scope) ∧
      SoundElse types scope elseBranch := by
  cases elseBranch with
  | none => exact ⟨h.1, h.2, nofun⟩
  | some elseBranch => exact ⟨h.1, h.2.1, fun s hs => Option.some.inj hs ▸ h.2.2⟩

namespace Stmt

def elseRun (rounds : Nat) (branch : Option Stmt) (store : Store) : Run Store :=
  match branch with
  | none => .done store
  | some s => s.run rounds store

theorem run_ifElse (rounds : Nat) (e : Expr) (thenBranch : Stmt) (elseBranch : Option Stmt)
    (store : Store) : (Stmt.ifElse e thenBranch elseBranch).run rounds store =
      .choose (e.test store) (thenBranch.run rounds store) (elseRun rounds elseBranch store) := by
  cases elseBranch with
  | none => rw [run, elseRun]
  | some s => rw [run, elseRun]

end Stmt

namespace Lowering

open Run

variable {types : String → Option ValueType} {scope : List String} {table : SymbolTable}

section Conditions

variable {e : Expr} {tree : Python.Tree}

def Decides (types : String → Option ValueType) (scope : List String) (e : Expr)
    (tree : Python.Tree) : Prop :=
  ∀ store vars, Mirrors types scope store vars →
    ∃ b, e.test store = some b ∧ tree.holds? vars = some b

theorem decides (h : ∀ store vars, Mirrors types scope store vars →
    SameValue .boolean (e.value? store.read) (tree.value? vars.env)) : Decides types scope e tree := by
  intro store vars hmirrors
  obtain ⟨_, htruth, hvalue, htree⟩ := h store vars hmirrors
  obtain ⟨b, rfl⟩ := Value.exists_truth htruth
  refine ⟨b, by rw [Expr.test, hvalue], ?_⟩
  rw [Python.Tree.holds?, htree]
  rfl

theorem simulates_ifElse (htest : Decides types scope e tree) {thenBranch : Stmt}
    {elseBranch : Option Stmt} {suite other : List Python.Code}
    (hthen : Simulates types scope (Mirrors types scope)
      (fun rounds store => thenBranch.run rounds store) suite)
    (helse : Simulates types scope (Mirrors types scope)
      (fun rounds store => Stmt.elseRun rounds elseBranch store) other) :
    Simulates types scope (Mirrors types scope)
      (fun rounds store => (Stmt.ifElse e thenBranch elseBranch).run rounds store)
      [.ifElse tree suite other] := by
  refine .single fun rounds store vars hmirrors => ?_
  obtain ⟨b, hjava, hpython⟩ := htest store vars hmirrors
  rw [Stmt.run_ifElse, Python.Code.run]
  exact .choose hjava hpython (hthen rounds store vars hmirrors) (helse rounds store vars hmirrors)

theorem simulates_loop (htest : Decides types scope e tree) {round : Nat → Store → Run Store}
    {suite : List Python.Code}
    (hround : Simulates types scope (Mirrors types scope) round suite) :
    Simulates types scope (Mirrors types scope)
      (fun rounds store => loop e.test (round rounds) rounds store) [.whileLoop tree suite] := by
  refine .single fun rounds store vars hmirrors => ?_
  rw [Python.Code.run]
  exact .loop htest (hround rounds) rounds store vars hmirrors

end Conditions

/-- The action has a result, and Python reads it as code that runs as stated. The table behind it
has the names. -/
def Follows (types : String → Option ValueType) (scope names : List String)
    (R : Store → Vars → Prop) (run : Nat → Store → Run Store)
    (action : Lowering (List Target.Stmt)) (table : SymbolTable) : Prop :=
  ∃ out after code, action.outcome table = (.ok out, after) ∧ Scoped types names after ∧
    Target.Reads out code ∧ Simulates types scope R run code

theorem Simulates.suite {R : Store → Vars → Prop} {run : Nat → Store → Run Store}
    {out : List Target.Stmt} {code : List Python.Code} (h : Simulates types scope R run code)
    (hreads : Target.Reads out code) :
    ∃ suite, Target.ReadsSuite out suite ∧ Simulates types scope R run suite := by
  obtain ⟨suite, hsuite, hsame⟩ := hreads.suite
  refine ⟨suite, hsuite, fun rounds store vars hmirrors => ?_⟩
  rw [hsame]
  exact h rounds store vars hmirrors

/-- Nothing is declared in the scope that the statement stands in. -/
theorem scoped_behind (hscoped : Scoped types scope table) {shared : Bool} {s : Stmt}
    (hnone : declaredNames shared s = []) {after : SymbolTable} {out : List Target.Stmt}
    (h : (stmt .outside shared s).outcome table = (.ok out, after)) : Scoped types scope after := by
  have hextends := (stmt_refers .outside shared s h).scope
  rw [hnone] at hextends
  exact hscoped.of_bare hextends.bare_eq

theorem follows_declare (shared : Bool) {decl : VarDecl} (h : decl.Sound types scope)
    (hscoped : Scoped types scope table) :
    Follows types scope (decl.name :: scope) (Mirrors types (decl.name :: scope))
      (fun rounds store => (Stmt.declare decl).run rounds store)
      (stmt .outside shared (.declare decl)) table := by
  obtain ⟨init, hinit, hsound⟩ := h.value
  obtain ⟨t, ht, hspelled, hagree⟩ := exists_value hscoped hsound
  have hinitial : (initial .outside decl).outcome table = (.ok t, table) := by
    rw [initial, hinit]
    exact ht
  refine ⟨_, _, _, ?_, hscoped.bring (declared _ decl.position) h.type h.name h.free, Target.Reads.assign h.name hspelled,
    .single fun rounds store vars hmirrors => ?_⟩
  · rw [stmt, outcome_bind_of_ok hinitial, outcome_declare_bind]
    rfl
  · obtain ⟨v, hv, hvalue, htree⟩ := hagree store vars hmirrors
    rw [Stmt.run, hinit, Option.bind_some, hvalue, Python.Code.run, htree]
    exact .of_done (hmirrors.push (hv ▸ h.type) h.free)

theorem follows_println {shared : Bool} {e : Expr} {position : Position}
    (h : ∃ type, (type = .int ∨ type = .string) ∧ e.Sound types scope type)
    (hscoped : Scoped types scope table) :
    Follows types scope scope (Mirrors types scope)
      (fun rounds store => (Stmt.print .println [e] position).run rounds store)
      (stmt .outside shared (.print .println [e] position)) table := by
  obtain ⟨type, htype, hsound⟩ := h
  obtain ⟨t, ht, hspelled, hagree⟩ := exists_value hscoped hsound
  refine ⟨_, _, _, ?_, hscoped, Target.Reads.print hspelled,
    .single fun rounds store vars hmirrors => ?_⟩
  · have hvalues : (values .outside ([e].take 1)).outcome table = (.ok [t], table) := by
      rw [List.take_succ_cons, values, outcome_bind_of_ok ht]
      rfl
    rw [stmt, print, outcome_bind_of_ok hvalues]
    rfl
  · obtain ⟨v, rfl, hvalue, htree⟩ := hagree store vars hmirrors
    rw [Stmt.run, Stmt.showArgs, hvalue, Python.Code.run, hmirrors.free "print" (by decide), htree]
    rw [given_some, given_some, Value.str_eq_shown htype]
    exact .of_prints _ hmirrors

section Body

variable {s : Stmt} {e : Expr}

abbrev FollowsBody (types : String → Option ValueType) (scope : List String) (s : Stmt)
    (table : SymbolTable) : Prop :=
  Follows types scope scope (Mirrors types scope) (fun rounds store => s.run rounds store)
    (stmt .outside true s) table.enter

theorem follows_whileLoop {shared : Bool} (he : e.Sound types scope .boolean)
    (hscoped : Scoped types scope table) (hnone : s.declared = [])
    (hbody : FollowsBody types scope s table) :
    Follows types scope scope (Mirrors types scope)
      (fun rounds store => (Stmt.whileLoop e s).run rounds store)
      (stmt .outside shared (.whileLoop e s)) table := by
  obtain ⟨t, ht, hspelled, hagree⟩ := exists_value hscoped he
  obtain ⟨out, inner, code, hout, -, hreads, hruns⟩ := hbody
  obtain ⟨suite, hsuite, hsuiteRuns⟩ := hruns.suite hreads
  have houtcome : (stmt .outside shared (.whileLoop e s)).outcome table =
      (.ok [.whileLoop t out], inner.leave) := by
    rw [stmt, outcome_bind_of_ok ht, outcome_bind_of_ok (outcome_inScope hout)]
    rfl
  refine ⟨_, _, _, houtcome, scoped_behind hscoped ?_ houtcome, .whileLoop hspelled hsuite, ?_⟩
  · cases shared <;> exact hnone
  · simp only [Stmt.run]
    exact simulates_loop (decides hagree) hsuiteRuns

end Body

section For

variable {decl : VarDecl} {e : Expr} {update : List Expr} {body : Stmt}

/-- A loop that is not recognized as counting becomes a `while` loop behind its declaration. -/
theorem follows_bareFor {shared : Bool} (hdecl : decl.Sound types scope)
    (he : e.Sound types (decl.name :: scope) .boolean)
    (hupdate : ∀ change ∈ update, change.SoundEffect types (decl.name :: scope))
    (hscoped : Scoped types scope table)
    (hbody : ∀ begun, Scoped types (decl.name :: scope) begun →
      FollowsBody types (decl.name :: scope) body begun)
    (hdetect : RangeLoop.detect? (.declare decl) (some e) update body = none)
    (hfits : RangeLoop.headerOverflows (.declare decl) (some e) update = false) :
    Follows types scope scope (Mirrors types scope)
      (fun rounds store =>
        (Stmt.forLoop (some (.declare decl)) (some e) update body).run rounds store)
      (stmt .outside shared (.forLoop (some (.declare decl)) (some e) update body)) table := by
  obtain ⟨first, begun, declaration, hfirst, hbegun, hfirstReads, hfirstRuns⟩ :=
    follows_declare false hdecl hscoped.enter
  obtain ⟨t, ht, hspelled, hagree⟩ := exists_value hbegun he
  obtain ⟨out, inner, code, hout, hinner, hreads, hruns⟩ := hbody begun hbegun
  obtain ⟨last, changes, hlast, hlastReads, hlastRuns⟩ := exists_effects hinner hupdate
  obtain ⟨suite, hsuite, hsuiteRuns⟩ := (hruns.andThen hlastRuns).suite (hreads.append hlastReads)
  have hround : (do return (← stmt .outside true body) ++ (← effects .outside update)).outcome
      begun.enter = (.ok (out ++ last), inner) := by
    rw [outcome_bind_of_ok hout, outcome_bind_of_ok hlast]
    rfl
  have hcondition : (loopCondition .outside (some e)).outcome begun = (.ok t, begun) := ht
  have houtcome :
      (stmt .outside shared (.forLoop (some (.declare decl)) (some e) update body)).outcome table =
        (.ok (first ++ [.whileLoop t (out ++ last)]), inner.leave.leave) := by
    rw [stmt]
    refine outcome_inScope ?_
    rw [hdetect]
    rw [outcome_refuseOverflow_bind hfits, outcome_bind_of_ok hfirst,
      outcome_bind_of_ok hcondition, outcome_bind_of_ok (outcome_inScope hround)]
    rfl
  refine ⟨_, _, _, houtcome, scoped_behind hscoped (by cases shared <;> rfl) houtcome,
    hfirstReads.append (.whileLoop hspelled hsuite), ?_⟩
  have hloop := hfirstRuns.andThen (simulates_loop (decides hagree) hsuiteRuns)
  simp only [Stmt.run]
  refine Simulates.leave fun rounds store vars hmirrors => ?_
  refine (hloop rounds store vars hmirrors).mono fun inner vars hinner => ⟨[decl.name], ?_, hinner⟩
  simpa using hdecl.fresh

theorem type_of_compared {op : BinaryOp} {type : ValueType}
    (h : op.coreType? .int type = some .boolean) : type = .int := by
  cases type <;> simp [BinaryOp.coreType?] at h ⊢

/-- The bound of a sound counting loop does without the counter. -/
theorem sound_bound {op : BinaryOp} {position : Position} {counter : String} {bound : Expr}
    (htype : types counter = some .int)
    (h : (Expr.binary op (.name counter position) bound).Sound types (counter :: scope) .boolean)
    (hleaves : (Expr.binary op (.name counter position) bound).leavesCounter counter = true) :
    bound.Sound types scope .int := by
  have hcounter : counter ∉ bound.names := by
    simpa [Expr.leavesCounter, RangeLoop.bound?] using hleaves
  obtain ⟨left, hleft, hrest⟩ := Option.bind_eq_some_iff.mp h.typed
  obtain ⟨right, hright, hop⟩ := Option.bind_eq_some_iff.mp hrest
  cases htype.symm.trans hleft
  cases type_of_compared hop
  refine ⟨hright, fun name hname => ?_, fun value hvalue => h.literals value ?_⟩
  · have hmem := h.names name (List.mem_append_right _ hname)
    exact (List.mem_cons.mp hmem).resolve_left (ne_of_mem_of_not_mem hname hcounter)
  · exact List.mem_append_right _ hvalue

/-- A loop that is recognized as counting becomes a loop over its range. -/
theorem follows_range {shared : Bool} (hdecl : decl.Sound types scope)
    (htype : types decl.name = some .int) (he : e.Sound types (decl.name :: scope) .boolean)
    (hleaves : e.leavesCounter decl.name = true)
    (hupdate : ∀ change ∈ update, change.SoundEffect types (decl.name :: scope))
    (hscoped : Scoped types scope table)
    (hbody : ∀ begun, Scoped types (decl.name :: scope) begun →
      FollowsBody types (decl.name :: scope) body begun)
    {found : RangeLoop}
    (hdetect : RangeLoop.detect? (.declare decl) (some e) update body = some found)
    (hfits : found.endOverflows = false) :
    Follows types scope scope (Mirrors types scope)
      (fun rounds store =>
        (Stmt.forLoop (some (.declare decl)) (some e) update body).run rounds store)
      (stmt .outside shared (.forLoop (some (.declare decl)) (some e) update body)) table := by
  obtain ⟨hcounter, op, position, heq, hinclusive, hstep, hundisturbed⟩ :=
    RangeLoop.exists_of_detect hdetect
  obtain ⟨counter, type, place, start, bound, step, inclusive⟩ := found
  obtain ⟨-, hcounter⟩ := Option.ite_none_right_eq_some.mp hcounter
  obtain ⟨first, hinit, hparts⟩ := Option.map_eq_some_iff.mp hcounter
  cases hparts
  cases heq
  obtain ⟨_, hsame, hstartSound⟩ := hdecl.value
  cases hinit.symm.trans hsame
  have hint : ValueType.ofTypeName decl.type = .int := Option.some.inj (hdecl.type.symm.trans htype)
  rw [hint] at hstartSound
  have hboundSound := sound_bound htype he hleaves
  have hdecimal : RangeLoop.DecimalAmounts update := fun _ _ _ _ _ hmem => by
    obtain ⟨-, -, -, hamount⟩ := hupdate _ hmem
    exact (Option.ite_none_right_eq_some.mp hamount.typed).1
  obtain ⟨t, ht, hspelled, hagree⟩ := exists_value hscoped.enter hstartSound
  obtain ⟨b, hb, hbspelled, hbagree⟩ := exists_value hscoped.enter hboundSound
  obtain ⟨written, hwritten, htext, hend⟩ := exists_written
    ⟨decl.name, .ofTypeName decl.type, decl.position, start, bound, step, inclusive⟩
    (RangeLoop.step_ne_zero hinclusive) hbspelled
  obtain ⟨out, inner, code, hout, -, hreads, hruns⟩ := hbody _
    (hscoped.enter.bring (declared (.ofTypeName decl.type) decl.position) hdecl.type hdecl.name
      hdecl.free)
  obtain ⟨suite, hsuite, hsuiteRuns⟩ := hruns.suite hreads
  let loop : RangeLoop :=
    ⟨decl.name, .ofTypeName decl.type, decl.position, start, bound, step, inclusive⟩
  have hloop : loop.endOverflows = false := hfits
  have hbounds : (rangeBounds .outside loop).outcome table.enter =
      (.ok (t, if inclusive then boundBehind loop b else b), counted loop table.enter) := by
    rw [rangeBounds, outcome_bind_of_ok ht, outcome_bind_of_ok hb,
      outcome_refuseOverflow_bind hloop, outcome_declare_bind]
    rfl
  have hreference : (reference .outside decl.name).outcome (counted loop table.enter) =
      (.ok (.name decl.name), counted loop table.enter) := rfl
  have houtcome : (stmt .outside shared (.forLoop (some (.declare decl))
      (some (.binary op (.name decl.name position) bound)) update body)).outcome table =
        (.ok [.forRange (.name decl.name) t (if inclusive then boundBehind loop b else b) step out],
          inner.leave.leave) := by
    rw [stmt]
    refine outcome_inScope ?_
    rw [hdetect]
    exact (outcome_bind_of_ok hbounds _).trans ((outcome_bind_of_ok hreference _).trans
      (outcome_bind_of_ok (outcome_inScope hout) _))
  refine ⟨_, _, _, houtcome, scoped_behind hscoped (by cases shared <;> rfl) houtcome,
    .forRange hdecl.name hspelled hwritten htext step hsuite, ?_⟩
  simp only [RangeLoop.undisturbed, Bool.and_eq_true, Bool.not_eq_true', List.contains_eq_mem,
    decide_eq_false_iff_not, List.all_eq_true] at hundisturbed
  obtain ⟨hkept, hreadsKept⟩ := hundisturbed
  refine simulates_range hinit hdecl.fresh hdecl.free htype hagree (fun store vars hmirrors => ?_)
    (fun name hname => ⟨hboundSound.names name ?_, hreadsKept name hname⟩) hkept hinclusive
    (fun store i hread => RangeLoop.performAll_of_step? hstep hdecimal hread) hsuiteRuns
  · obtain ⟨_, hnumber, hvalue, htree⟩ := hbagree store vars hmirrors
    obtain ⟨n, rfl⟩ := Value.exists_int hnumber
    refine ⟨n, hvalue, hend vars.env n (fun text position m hstop hm => ?_) htree⟩
    cases hstop
    obtain ⟨hinteger, -⟩ := Option.ite_none_right_eq_some.mp hboundSound.typed
    cases hvalue.symm.trans (Literal.value?_of_int64? hinteger hm)
    rfl
  · rwa [Expr.names_eq_reads hboundSound.typed]

end For

/-- What follows the body of an `if` has a result, and Python reads it as code that runs like the
branch. -/
def FollowsElse (types : String → Option ValueType) (scope : List String) (branch : Option Stmt)
    (table : SymbolTable) : Prop :=
  ∃ result after code, (alternative .outside branch).outcome table = (.ok result, after) ∧
    Target.ReadsBranch result code ∧ Simulates types scope (Mirrors types scope)
      (fun rounds store => Stmt.elseRun rounds branch store) code

section Branches

variable {e : Expr} {thenBranch : Stmt} {elseBranch : Option Stmt}

/-- The parts of an `if`, which an `else if` has as well. -/
theorem exists_branches (he : e.Sound types scope .boolean) (hscoped : Scoped types scope table)
    (hthen : FollowsBody types scope thenBranch table)
    (helse : ∀ between, Scoped types scope between → FollowsElse types scope elseBranch between) :
    ∃ t out between result after suite other, (value .outside e).outcome table = (.ok t, table) ∧
      (inScope (stmt .outside true thenBranch)).outcome table = (.ok out, between) ∧
      (alternative .outside elseBranch).outcome between = (.ok result, after) ∧
      t.Spelled ∧ Target.ReadsSuite out suite ∧ Target.ReadsBranch result other ∧
      Simulates types scope (Mirrors types scope)
        (fun rounds store => (Stmt.ifElse e thenBranch elseBranch).run rounds store)
        [.ifElse t.tree suite other] := by
  obtain ⟨t, ht, hspelled, hagree⟩ := exists_value hscoped he
  obtain ⟨out, inner, code, hout, hinner, hreads, hruns⟩ := hthen
  obtain ⟨suite, hsuite, hsuiteRuns⟩ := hruns.suite hreads
  have hbetween : Scoped types scope inner.leave :=
    hscoped.of_bare (stmt_refers .outside true thenBranch hout).scope.leave
  obtain ⟨result, after, other, hresult, hbranch, hother⟩ := helse inner.leave hbetween
  exact ⟨t, out, inner.leave, result, after, suite, other, ht, outcome_inScope hout, hresult,
    hspelled, hsuite, hbranch, simulates_ifElse (decides hagree) hsuiteRuns hother⟩

theorem follows_ifElse {shared : Bool} (he : e.Sound types scope .boolean)
    (hscoped : Scoped types scope table) (hnone : (Stmt.ifElse e thenBranch elseBranch).declared = [])
    (hthen : FollowsBody types scope thenBranch table)
    (helse : ∀ between, Scoped types scope between → FollowsElse types scope elseBranch between) :
    Follows types scope scope (Mirrors types scope)
      (fun rounds store => (Stmt.ifElse e thenBranch elseBranch).run rounds store)
      (stmt .outside shared (.ifElse e thenBranch elseBranch)) table := by
  obtain ⟨t, out, between, result, after, suite, other, ht, hout, hresult, hspelled, hsuite, hbranch,
    hruns⟩ := exists_branches he hscoped hthen helse
  have houtcome : (stmt .outside shared (.ifElse e thenBranch elseBranch)).outcome table =
      (.ok [.ifElse t out result], after) := by
    rw [stmt, outcome_bind_of_ok ht, outcome_bind_of_ok hout, outcome_bind_of_ok hresult]
    rfl
  exact ⟨_, _, _, houtcome, scoped_behind hscoped (by cases shared <;> exact hnone) houtcome,
    .ifElse hspelled hsuite hbranch, hruns⟩

theorem followsElse_elseIf (he : e.Sound types scope .boolean) (hscoped : Scoped types scope table)
    (hthen : FollowsBody types scope thenBranch table)
    (helse : ∀ between, Scoped types scope between → FollowsElse types scope elseBranch between) :
    FollowsElse types scope (some (.ifElse e thenBranch elseBranch)) table := by
  obtain ⟨t, out, between, result, after, suite, other, ht, hout, hresult, hspelled, hsuite, hbranch,
    hruns⟩ := exists_branches he hscoped hthen helse
  have houtcome : (alternative .outside (some (.ifElse e thenBranch elseBranch))).outcome table =
      (.ok (.elseIf t out result), after) := by
    rw [alternative, outcome_bind_of_ok ht, outcome_bind_of_ok hout, outcome_bind_of_ok hresult]
    rfl
  exact ⟨_, _, _, houtcome, .elseIf hspelled hsuite hbranch, hruns⟩

theorem followsElse_otherwise {branch : Stmt}
    (hbranch : ∀ e thenBranch elseBranch, branch ≠ .ifElse e thenBranch elseBranch)
    (h : FollowsBody types scope branch table) : FollowsElse types scope (some branch) table := by
  obtain ⟨out, inner, code, hout, -, hreads, hruns⟩ := h
  obtain ⟨suite, hsuite, hsuiteRuns⟩ := hruns.suite hreads
  have houtcome : (alternative .outside (some branch)).outcome table =
      (.ok (.otherwise out), inner.leave) := by
    rw [alternative, outcome_bind_of_ok (outcome_inScope hout)]
    · rfl
    · exact hbranch
  exact ⟨_, _, _, houtcome, .otherwise hsuite, hsuiteRuns⟩

end Branches

theorem followsBody {s : Stmt} (hnone : s.declared = [])
    (h : Follows types scope (s.declared ++ scope) (Mirrors types (s.declared ++ scope))
      (fun rounds store => s.run rounds store) (stmt .outside true s) table.enter) :
    FollowsBody types scope s table := by
  rwa [hnone, List.nil_append] at h

/-- Behind a first statement the variables that are new have new names. -/
theorem follows_cons {first : Stmt} {rest : List Stmt} (h : first.Sound types scope)
    (hfirst : Follows types scope (first.declared ++ scope) (Mirrors types (first.declared ++ scope))
      (fun rounds store => first.run rounds store) (stmt .outside false first) table)
    (hrest : ∀ between, Scoped types (first.declared ++ scope) between →
      Follows types (first.declared ++ scope) (first.declared ++ scope)
        (Within types (first.declared ++ scope))
        (fun rounds store => Stmt.runAll rounds rest store) (stmts .outside rest) between) :
    Follows types scope scope (Within types scope)
      (fun rounds store => Stmt.runAll rounds (first :: rest) store)
      (stmts .outside (first :: rest)) table := by
  obtain ⟨out, between, code, hout, hbetween, hreads, hruns⟩ := hfirst
  obtain ⟨more, after, next, hmore, hafter, hmoreReads, hmoreRuns⟩ := hrest between hbetween
  have hfresh : ∀ name ∈ first.declared, name ∉ scope := by
    rcases h.declared with hnone | ⟨decl, rfl, hdecl⟩
    · rw [hnone]
      exact nofun
    · exact List.forall_mem_singleton.mpr hdecl.fresh
  refine ⟨out ++ more, after, code ++ next, ?_, hafter.mono (List.subset_append_right _ _),
    hreads.append hmoreReads, fun rounds store vars hmirrors => ?_⟩
  · rw [stmts, outcome_bind_of_ok hout, outcome_bind_of_ok hmore]
    rfl
  · simp only [Stmt.runAll]
    refine (hruns.andThen hmoreRuns rounds store vars hmirrors).mono
      fun inner vars ⟨front, hfront, hinner⟩ => ⟨front ++ first.declared, ?_, ?_⟩
    · refine List.forall_mem_append.mpr ⟨fun name hname hmem => ?_, hfresh⟩
      exact hfront name hname (List.mem_append_right _ hmem)
    · rwa [List.append_assoc]

mutual

/-- Every sound statement is lowered to code that runs like it. -/
theorem follows_stmt (shared : Bool) : (s : Stmt) → ∀ {scope : List String} {table : SymbolTable},
    s.Sound types scope → .overflow ∉ s.failures → Scoped types scope table →
      Follows types scope (s.declared ++ scope) (Mirrors types (s.declared ++ scope))
        (fun rounds store => s.run rounds store) (stmt .outside shared s) table
  | .declare decl, scope, table, h, _, hscoped => follows_declare shared h hscoped
  | .expression e, scope, table, h, _, hscoped => by
      obtain ⟨out, code, hout, hreads, hruns⟩ := exists_effect hscoped h
      refine ⟨out, table, code, ?_, hscoped, hreads, ?_⟩
      · rw [stmt]
        exact hout
      · simp only [Stmt.run]
        exact hruns
  | .block list, scope, table, h, hfits, hscoped => by
      rw [Stmt.failures] at hfits
      cases shared with
      | true =>
          obtain ⟨out, inner, code, hout, hinner, hreads, hruns⟩ := follows_stmts list h hfits hscoped
          refine ⟨out, inner, code, ?_, hinner, hreads, ?_⟩
          · rw [stmt, if_pos rfl]
            exact hout
          · simp only [Stmt.run]
            exact hruns.leave
      | false =>
          obtain ⟨out, inner, code, hout, -, hreads, hruns⟩ := follows_stmts list h hfits hscoped.enter
          refine ⟨out, inner.leave, code, ?_, ?_, hreads, ?_⟩
          · rw [stmt, if_neg Bool.false_ne_true]
            exact outcome_inScope hout
          · exact hscoped.of_bare (stmts_refers .outside list hout).scope.leave
          · simp only [Stmt.run]
            exact hruns.leave
  | .ifElse e thenBranch elseBranch, scope, table, h, hfits, hscoped => by
      simp only [Stmt.failures, List.mem_append, not_or] at hfits
      obtain ⟨he, hthen, helse⟩ := Stmt.Sound.branches h
      have hnone : (Stmt.ifElse e thenBranch elseBranch).declared = [] := by
        rcases Stmt.Sound.declared h with hnone | ⟨decl, heq, -⟩
        · exact hnone
        · cases heq
      have hbody := followsBody hthen.1
        (follows_stmt true thenBranch hthen.2 hfits.2.1 hscoped.enter)
      rw [hnone]
      exact follows_ifElse he hscoped hnone hbody fun between hbetween =>
        follows_else elseBranch helse hfits.2.2 hbetween
  | .whileLoop e body, scope, table, h, hfits, hscoped => by
      simp only [Stmt.failures, List.mem_append, not_or] at hfits
      obtain ⟨he, hnone, hbody⟩ := h
      rw [Stmt.declared, hnone]
      exact follows_whileLoop he hscoped hnone
        (followsBody hnone (follows_stmt true body hbody hfits.2 hscoped.enter))
  | .forLoop (some (.declare decl)) (some e) update body, scope, table, h, hfits, hscoped => by
      obtain ⟨hdecl, htype, he, hleaves, hupdate, hnone, hbody⟩ := h
      have hround (hfits : .overflow ∉ body.failures) (begun : SymbolTable)
          (hbegun : Scoped types (decl.name :: scope) begun) :
          FollowsBody types (decl.name :: scope) body begun :=
        followsBody hnone (follows_stmt true body hbody hfits hbegun.enter)
      cases hdetect : RangeLoop.detect? (.declare decl) (some e) update body with
      | none =>
          simp only [Stmt.failures, hdetect, List.mem_append, not_or, mem_overflowIf] at hfits
          exact follows_bareFor hdecl he hupdate hscoped (hround hfits.2.2.2.1) hdetect
            (Bool.not_eq_true _ ▸ hfits.1)
      | some found =>
          simp only [Stmt.failures, hdetect, List.mem_append, not_or, mem_overflowIf] at hfits
          exact follows_range hdecl htype he hleaves hupdate hscoped (hround hfits.2.2.2) hdetect
            (Bool.not_eq_true _ ▸ hfits.2.2.1)
  | .print .println [e] position, scope, table, h, _, hscoped => follows_println h hscoped
  | .empty, scope, table, _, _, hscoped => by
      refine ⟨[], table, [], ?_, hscoped, .nil, ?_⟩
      · rw [stmt]
        rfl
      · simp only [Stmt.run]
        exact .nothing types scope

theorem follows_stmts : (list : List Stmt) → ∀ {scope : List String} {table : SymbolTable},
    Stmt.soundAll types list scope → .overflow ∉ allFailures list → Scoped types scope table →
      Follows types scope scope (Within types scope)
        (fun rounds store => Stmt.runAll rounds list store) (stmts .outside list) table
  | [], scope, table, _, _, hscoped => by
      refine ⟨[], table, [], rfl, hscoped, .nil, fun rounds store vars hmirrors => ?_⟩
      simp only [Stmt.runAll, Python.runAll]
      exact .of_done ⟨[], nofun, hmirrors⟩
  | first :: rest, scope, table, h, hfits, hscoped => by
      simp only [allFailures, List.mem_append, not_or] at hfits
      exact follows_cons h.1 (follows_stmt false first h.1 hfits.1 hscoped) fun between hbetween =>
        follows_stmts rest h.2 hfits.2 hbetween

theorem follows_else : (branch : Option Stmt) → ∀ {scope : List String} {table : SymbolTable},
    SoundElse types scope branch → .overflow ∉ branchFailures branch → Scoped types scope table →
      FollowsElse types scope branch table
  | none, scope, table, _, _, _ => by
      refine ⟨.nothing, table, [], ?_, .nothing, .nothing types scope⟩
      rw [alternative]
      rfl
  | some branch, scope, table, h, hfits, hscoped => by
      obtain ⟨hnone, hsound⟩ := h branch rfl
      rw [branchFailures] at hfits
      have hbody := followsBody hnone (follows_stmt true branch hsound hfits hscoped.enter)
      cases branch with
      | ifElse e thenBranch elseBranch =>
          obtain ⟨he, hthen, helse⟩ := Stmt.Sound.branches hsound
          simp only [Stmt.failures, List.mem_append, not_or] at hfits
          have hinner := followsBody hthen.1
            (follows_stmt true thenBranch hthen.2 hfits.2.1 hscoped.enter)
          exact followsElse_elseIf he hscoped hinner fun between hbetween =>
            follows_else elseBranch helse hfits.2.2 hbetween
      | _ => exact followsElse_otherwise (by nofun) hbody

end

end Lowering

end MiniJava
