import MiniJava.Proofs.Lowering.Breaks
import MiniJava.Proofs.Lowering.Inversion
import MiniJava.Proofs.Target.Path

/-!
# Where continues go

A `do` loop and a `for` loop that does not count become a `while` loop whose body ends with the
loop's bookkeeping: the updates, or the test. A `continue` is kept as it is, so it passes the
bookkeeping by. The ends of the ways through a statement are computed from the source, and a loop
leaves its bookkeeping out of some round exactly if there is a way to a `continue` of its own.
-/

namespace MiniJava

open Target (Ends)

mutual

/-- The ends of the ways through the statements that a statement is lowered to. -/
def Stmt.ends : Stmt → Ends
  | .declare _ | .expression _ => .plain
  | .block body => runEnds body
  | .ifElse _ thenBranch elseBranch => .choice thenBranch.ends (elseEnds elseBranch)
  | .whileLoop _ body | .doWhile body _ | .forLoop none _ _ body => .loop body.ends
  | .forLoop (some init) _ _ body => init.ends.seq (.loop body.ends)
  | .switch _ cases default => casesEnds (defaultEnds default) cases
  | .tryCatch body catches none => .guarded (runEnds body) (catchesEnds catches)
  | .tryCatch body catches (some cleanup) =>
    .cleaned (.guarded (runEnds body) (catchesEnds catches)) (runEnds cleanup)
  | .print .printf [] _ => .only .done
  | .print _ _ _ => .plain
  | .returns none _ => .only .returned
  | .returns (some _) _ => (Ends.only .returned).or (.only .raised)
  | .breaks => .only .broken
  | .continues => .only .continued
  | .empty => .only .done

def runEnds : List Stmt → Ends
  | [] => .only .done
  | first :: rest => first.ends.seq (runEnds rest)

def elseEnds : Option Stmt → Ends
  | none => .only .done
  | some branch => branch.ends

def labelEnds : List Stmt → Ends
  | [] => .only .done
  | .breaks :: _ => .only .done
  | first :: rest => first.ends.seq (labelEnds rest)

def casesEnds (default : Ends) : List (SwitchCase Stmt) → Ends
  | [] => default
  | ⟨_, []⟩ :: rest => casesEnds default rest
  | ⟨_, first :: body⟩ :: rest =>
    .choice (labelEnds (first :: body)) (casesEnds default rest)

def defaultEnds : Option (List Stmt) → Ends
  | none => .only .done
  | some body => labelEnds body

def catchesEnds : List (CatchClause Stmt) → Ends
  | [] => .never
  | ⟨_, _, body, _⟩ :: rest => (runEnds body).or (catchesEnds rest)

end

namespace Lowering

open Target (allEnds handlersEnds)

def Ending (action : Lowering (List Target.Stmt)) (ends : Ends) : Prop :=
  Yields action fun out => allEnds out = ends

namespace Ending

theorem pure {out : List Target.Stmt} {ends : Ends} (h : allEnds out = ends) :
    Ending (Pure.pure out) ends := Yields.pure h

theorem one {s : Target.Stmt} : Ending (Pure.pure [s]) s.ends :=
  Yields.pure (Ends.seq_only_done _)

theorem inScope {action : Lowering (List Target.Stmt)} {ends : Ends} (h : Ending action ends) :
    Ending (Lowering.inScope action) ends := Yields.inScope h

/-- What is evaluated first leaves no statements behind. -/
theorem after {α : Type} {action : Lowering α} {next : α → Lowering (List Target.Stmt)}
    {ends : Ends} (h : ∀ a, Ending (next a) ends) : Ending (action >>= next) ends :=
  (Yields.trivial action).bind fun a _ => h a

theorem append {front back : Lowering (List Target.Stmt)} {first second : Ends}
    (hfront : Ending front first) (hback : Ending back second) :
    Ending (do return (← front) ++ (← back)) (first.seq second) := by
  refine hfront.bind fun out hout => hback.bind fun more hmore => Yields.pure ?_
  rw [Target.allEnds_append, hout, hmore]

end Ending

/-- A loop with these rounds ends like a loop whose body has these ends. -/
def Rounds (action : Lowering (List Target.Stmt)) (ends : Ends) : Prop :=
  Yields action fun out => (allEnds out).loop = ends.loop

namespace Rounds

theorem of_ending {action : Lowering (List Target.Stmt)} {ends : Ends} (h : Ending action ends) :
    Rounds action ends := h.mono fun _ hout => congrArg Ends.loop hout

theorem inScope {action : Lowering (List Target.Stmt)} {ends : Ends} (h : Rounds action ends) :
    Rounds (Lowering.inScope action) ends := Yields.inScope h

theorem loop {action : Lowering (List Target.Stmt)} {ends : Ends}
    {head : List Target.Stmt → Target.Stmt} (h : Rounds action ends)
    (hhead : ∀ out, (head out).ends = .loop (allEnds out)) :
    Ending (do return [head (← action)]) (.loop ends) := by
  refine h.bind fun out hout => Yields.pure ?_
  rw [allEnds, allEnds, Ends.seq_only_done, hhead, hout]

end Rounds

theorem effect_ending (place : Place) (e : Expr) : Ending (effect place e) .plain := by
  unfold effect
  split
  · exact .after fun _ => .after fun _ => .one
  · exact Yields.throw _
  · exact .after fun _ => .after fun _ => .after fun _ => .after fun _ => .one
  · exact .after fun _ => .one
  · exact .after fun _ => .one

/-- Effects are done, or one of them raises an exception. -/
theorem effects_ending (place : Place) (es : List Expr) :
    Yields (effects place es) fun out =>
      allEnds out .returned = false ∧ allEnds out .continued = false := by
  induction es with
  | nil => exact Yields.pure ⟨rfl, rfl⟩
  | cons e es ih =>
      refine (effect_ending place e).bind fun out hout => ih.bind fun more hmore => Yields.pure ?_
      rw [Target.allEnds_append, hout]
      simp [Ends.seq, Ends.plain, Ends.or, Ends.only, hmore]

theorem Rounds.updating {body : Lowering (List Target.Stmt)} {ends : Ends} (place : Place)
    (update : List Expr) (h : Ending body ends) :
    Rounds (do return (← body) ++ (← effects place update)) ends := by
  refine h.bind fun out hout => (effects_ending place update).bind fun last hlast =>
    Yields.pure ?_
  rw [Target.allEnds_append, hout, Ends.loop_seq hlast.1]

theorem Rounds.testing {body : Lowering (List Target.Stmt)} {ends : Ends}
    {condition : Lowering Target.Expr} (h : Ending body ends) :
    Rounds (do
      let out ← body
      let condition ← condition
      return out ++ [exitUnless condition]) ends := by
  refine h.bind fun out hout => (Yields.trivial condition).bind fun condition _ => Yields.pure ?_
  rw [Target.allEnds_append, hout, Ends.loop_seq rfl]

theorem print_ending (place : Place) (kind : PrintKind) (args : List Expr) (position : Position) :
    Ending (print place kind args) (Stmt.print kind args position).ends := by
  unfold print
  split
  · exact .pure rfl
  · exact .after fun _ => .after fun _ => .one
  · exact .after fun _ => .one
  · exact .after fun _ => .one

def groupsEnds (default : Ends) : List (Target.Expr × List Target.Stmt) → Ends
  | [] => default
  | (_, body) :: rest => .choice (allEnds body) (groupsEnds default rest)

theorem alternatives_ends (groups : List (Target.Expr × List Target.Stmt))
    (default : Option (List Target.Stmt)) :
    (alternatives default groups).ends = groupsEnds (allEnds (default.getD [])) groups := by
  induction groups with
  | nil => cases default <;> rfl
  | cons group groups ih => rw [alternatives, Target.Alternative.ends, ih, groupsEnds]

theorem chain_ends (groups : List (Target.Expr × List Target.Stmt))
    (default : Option (List Target.Stmt)) :
    allEnds (chain groups default) = groupsEnds (allEnds (default.getD [])) groups := by
  cases groups with
  | nil => rfl
  | cons group groups =>
      rw [chain, allEnds, allEnds, Ends.seq_only_done, Target.Stmt.ends, alternatives_ends,
        groupsEnds]

def cleanedEnds (inner : Ends) : Option Ends → Ends
  | none => inner
  | some cleanup => inner.cleaned cleanup

theorem tryExcept_ends (body : List Target.Stmt) (handlers : List (Target.Handler Target.Stmt))
    (cleanup : Option (List Target.Stmt)) :
    (Target.Stmt.tryExcept body handlers cleanup).ends =
      cleanedEnds (.guarded (allEnds body) (handlersEnds handlers)) (cleanup.map allEnds) := by
  cases cleanup <;> rfl

theorem tryCatch_ends (body : List Stmt) (catches : List (CatchClause Stmt))
    (cleanup : Option (List Stmt)) :
    (Stmt.tryCatch body catches cleanup).ends =
      cleanedEnds (.guarded (runEnds body) (catchesEnds catches)) (cleanup.map runEnds) := by
  cases cleanup <;> rfl

theorem ends_of_detect? {init body : Stmt} {condition : Option Expr} {update : List Expr}
    {loop : RangeLoop} (h : RangeLoop.detect? init condition update body = some loop) :
    init.ends = .plain := by
  obtain ⟨counter, hcounter, -⟩ := Option.bind_eq_some_iff.mp h
  unfold RangeLoop.counter? at hcounter
  split at hcounter
  · rfl
  · rfl
  · cases hcounter

mutual

theorem stmt_ending (place : Place) (shared : Bool) :
    (s : Stmt) → Ending (stmt place shared s) s.ends
  | .declare decl => by
      rw [stmt]
      exact .after fun _ => .after fun _ => .after fun _ => .one
  | .expression e => by
      rw [stmt]
      exact effect_ending place e
  | .block body => by
      have hbody := stmts_ending place body
      cases shared with
      | true => rwa [stmt, if_pos rfl]
      | false =>
          rw [stmt, if_neg Bool.false_ne_true]
          exact hbody.inScope
  | .ifElse e thenBranch elseBranch => by
      have hthen := (stmt_ending place true thenBranch).inScope
      have helse := alternative_ending place elseBranch
      rw [stmt]
      refine .after fun condition => hthen.bind fun body hbody => helse.bind fun rest hrest =>
        .pure ?_
      rw [Stmt.ends, allEnds, allEnds, Ends.seq_only_done, Target.Stmt.ends, hbody, hrest]
  | .whileLoop e body => by
      rw [stmt]
      exact .after fun _ =>
        (Rounds.of_ending (stmt_ending place true body)).inScope.loop fun _ => rfl
  | .doWhile body e => by
      have hbody := stmt_ending place true body
      rw [stmt]
      exact (Rounds.testing hbody).inScope.loop fun _ => rfl
  | .forLoop none e update body => by
      have hbody := stmt_ending place true body
      rw [stmt]
      refine .inScope (.after fun _ => ?_)
      exact (Rounds.updating place update hbody).inScope.loop fun _ => rfl
  | .forLoop (some init) e update body => by
      have hinit := stmt_ending place false init
      have hbody := stmt_ending place true body
      have hrounds := (Rounds.updating place update hbody).inScope
      rw [stmt, Stmt.ends]
      apply Ending.inScope
      split
      · rename_i loop hloop
        rw [ends_of_detect? hloop, Ends.plain_seq_loop]
        exact .after fun _ => .after fun _ => (Rounds.of_ending hbody).inScope.loop fun _ => rfl
      · refine (Yields.trivial _).bind fun _ _ => hinit.bind fun first hfirst =>
          (Yields.trivial _).bind fun _ _ => hrounds.bind fun out hout => .pure ?_
        rw [Target.allEnds_append, hfirst, allEnds, allEnds, Ends.seq_only_done, Target.Stmt.ends,
          hout]
  | .switch scrutinee cases default => by
      have hcases := groups_ending place cases
      have hdefault := defaultBody_ending place default
      rw [stmt]
      refine .after fun subject => (hcases subject none).bind fun groups hgroups =>
        hdefault.bind fun out hout => .pure ?_
      rw [chain_ends, hgroups, hout, Stmt.ends]
  | .tryCatch body catches cleanup => by
      have hbody := (stmts_ending place body).inScope
      have hcatches := handlers_ending place catches
      have hcleanup := cleanupBody_ending place cleanup
      rw [stmt]
      refine hbody.bind fun out hout => hcatches.bind fun handlers hhandlers =>
        hcleanup.bind fun last hlast => .pure ?_
      rw [allEnds, allEnds, Ends.seq_only_done, tryExcept_ends, tryCatch_ends, hout, hhandlers,
        hlast]
  | .print kind args position => by
      rw [stmt]
      exact print_ending place kind args position
  | .returns none _ => by
      rw [stmt]
      exact .one
  | .returns (some e) _ => by
      rw [stmt]
      exact .after fun _ => .one
  | .breaks | .continues => by
      rw [stmt]
      exact .one
  | .empty => by
      rw [stmt]
      exact .pure rfl

theorem stmts_ending (place : Place) :
    (body : List Stmt) → Ending (stmts place body) (runEnds body)
  | [] => by
      rw [stmts]
      exact .pure rfl
  | first :: rest => by
      rw [stmts]
      exact (stmt_ending place false first).append (stmts_ending place rest)

theorem alternative_ending (place : Place) : (branch : Option Stmt) →
    Yields (alternative place branch) fun out => out.ends = elseEnds branch
  | none => by
      rw [alternative]
      exact Yields.pure rfl
  | some branch => by
      have hbranch := (stmt_ending place true branch).inScope
      cases branch with
      | ifElse e thenBranch elseBranch =>
          have hthen := (stmt_ending place true thenBranch).inScope
          have helse := alternative_ending place elseBranch
          rw [alternative]
          refine (Yields.trivial _).bind fun condition _ => hthen.bind fun body hbody =>
            helse.bind fun rest hrest => Yields.pure ?_
          rw [elseEnds, Stmt.ends, Target.Alternative.ends, hbody, hrest]
      | _ =>
          rw [alternative]
          · exact hbranch.bind fun out hout => Yields.pure hout
          · nofun

theorem caseBody_ending (place : Place) :
    (body : List Stmt) → Ending (caseBody place body) (labelEnds body)
  | [] => by
      rw [caseBody]
      exact .pure rfl
  | first :: rest => by
      have hfirst := stmt_ending place false first
      have hrest := caseBody_ending place rest
      by_cases hbreak : first = .breaks
      · rw [hbreak, caseBody, labelEnds]
        exact .pure rfl
      · rw [caseBody, labelEnds]
        · exact hfirst.append hrest
        · exact hbreak
        · exact hbreak

theorem groups_ending (place : Place) : (cases : List (SwitchCase Stmt)) →
    ∀ (subject : Target.Expr) (pending : Option Target.Expr),
      Yields (groups place subject pending cases) fun out =>
        ∀ default, groupsEnds default out = casesEnds default cases
  | [], subject, pending => by
      rw [groups]
      exact Yields.pure fun _ => rfl
  | ⟨label, []⟩ :: rest, subject, pending => by
      have hrest := groups_ending place rest subject
      rw [groups]
      exact (Yields.trivial _).bind fun value _ => hrest (some (matching subject pending value))
  | ⟨label, first :: body⟩ :: rest, subject, pending => by
      have hbody := (caseBody_ending place (first :: body)).inScope
      have hrest := groups_ending place rest subject
      rw [groups]
      refine (Yields.trivial _).bind fun value _ => ?_
      refine hbody.bind fun out hout => (hrest none).bind fun rest hrest => Yields.pure ?_
      intro default
      rw [groupsEnds, casesEnds, hout, hrest]

theorem defaultBody_ending (place : Place) : (default : Option (List Stmt)) →
    Yields (defaultBody place default) fun out => allEnds (out.getD []) = defaultEnds default
  | none => by
      rw [defaultBody]
      exact Yields.pure rfl
  | some body => by
      rw [defaultBody]
      exact Yields.map (caseBody_ending place body).inScope

theorem handlers_ending (place : Place) : (catches : List (CatchClause Stmt)) →
    Yields (handlers place catches) fun out => handlersEnds out = catchesEnds catches
  | [] => by
      rw [handlers]
      exact Yields.pure rfl
  | ⟨exception, name, body, position⟩ :: rest => by
      have hbody := stmts_ending place body
      rw [handlers]
      refine (Ending.inScope (.after fun _ => hbody)).bind fun out hout =>
        (handlers_ending place rest).bind fun more hmore => Yields.pure ?_
      rw [handlersEnds, catchesEnds, hout, hmore]

theorem cleanupBody_ending (place : Place) : (cleanup : Option (List Stmt)) →
    Yields (cleanupBody place cleanup) fun out => out.map allEnds = cleanup.map runEnds
  | none => by
      rw [cleanupBody]
      exact Yields.pure rfl
  | some body => by
      rw [cleanupBody]
      refine (stmts_ending place body).inScope.bind fun out hout => Yields.pure ?_
      rw [Option.map_some, Option.map_some, hout]

end

end Lowering

/-- What a loop does at the end of a round. -/
inductive Bookkeeping where
  | updates (update : List Expr)
  | test (condition : Expr)

/-- The body and the bookkeeping of a loop that Python has no form for. -/
def Stmt.bookkeeping? : Stmt → Option (Stmt × Bookkeeping)
  | .doWhile body e => some (body, .test e)
  | .forLoop none _ update body => some (body, .updates update)
  | .forLoop (some init) e update body =>
    match RangeLoop.detect? init e update body with
    | some _ => none
    | none => some (body, .updates update)
  | _ => none

namespace Lowering

open Target (allEnds Path Kept Skipped Final)

def bookkeeping (place : Place) : Bookkeeping → Lowering (List Target.Stmt)
  | .updates update => effects place update
  | .test e => do return [exitUnless (← value place e)]

theorem bookkeeping_ending (place : Place) (books : Bookkeeping) :
    Yields (bookkeeping place books) fun out => allEnds out .continued = false := by
  cases books with
  | updates update => exact (effects_ending place update).mono fun _ hout => hout.2
  | test e => exact (Yields.trivial _).bind fun _ _ => Yields.pure rfl

section Loops

variable {place : Place} {shared : Bool} {table after : SymbolTable}

/-- A loop with bookkeeping becomes a `while` loop that does it behind its body. -/
theorem exists_bookkept {loop body : Stmt} {books : Bookkeeping} {out : List Target.Stmt}
    (hloop : loop.bookkeeping? = some (body, books))
    (hout : (stmt place shared loop).outcome table = (.ok out, after)) :
    ∃ front condition rounds last before between behind,
      out = front ++ [.whileLoop condition (rounds ++ last)] ∧
      (stmt place true body).outcome before = (.ok rounds, between) ∧
      (bookkeeping place books).outcome between = (.ok last, behind) := by
  unfold Stmt.bookkeeping? at hloop
  split at hloop
  · next body e =>
      cases hloop
      obtain ⟨rounds, condition, inner, hbody, hcondition, -, rfl⟩ := exists_of_doWhile hout
      refine ⟨[], .bool true, rounds, [exitUnless condition], _, inner, inner, rfl, hbody, ?_⟩
      rw [bookkeeping, outcome_bind, hcondition]
      rfl
  · next e update body =>
      cases hloop
      obtain ⟨condition, rounds, last, inner, -, hbody, hlast, -, rfl⟩ := exists_of_bareFor hout
      exact ⟨[], condition, rounds, last, _, inner, inner, rfl, hbody, hlast⟩
  · next init e update body =>
      split at hloop
      · cases hloop
      · next hdetect =>
          cases hloop
          obtain ⟨front, begun, condition, rounds, last, inner, -, -, hbody, hlast, -, rfl⟩ :=
            exists_of_for hdetect hout
          exact ⟨front, condition, rounds, last, _, inner, inner, rfl, hbody, hlast⟩
  · cases hloop

end Loops

/-- A round that reaches the end of its body does the bookkeeping, and one that ends with a
`continue` does none of it. There are rounds of the second kind exactly if there is a way through
the body to a `continue` of the loop; without one, every round that a run of the loop goes on
behind does the bookkeeping. -/
theorem rounds_keep_bookkeeping_iff (place : Place) (shared : Bool) (table after : SymbolTable)
    (loop body : Stmt) (books : Bookkeeping) (out : List Target.Stmt)
    (hloop : loop.bookkeeping? = some (body, books))
    (hout : (stmt place shared loop).outcome table = (.ok out, after)) :
    ∃ front condition rounds last before between behind,
      out = front ++ [.whileLoop condition (rounds ++ last)] ∧
      (stmt place true body).outcome before = (.ok rounds, between) ∧
      (bookkeeping place books).outcome between = (.ok last, behind) ∧
      (∀ t, Path (.run (rounds ++ last)) t .done ↔ Kept rounds last t) ∧
      (∀ t, Path (.run (rounds ++ last)) t .continued ↔ Skipped rounds t) ∧
      ((∃ t, Skipped rounds t) ↔ body.ends .continued = true) ∧
      ∀ t e, Path (.rounds (.tests condition) (rounds ++ last)) t e →
        ∃ (turns : List (List Target.Event)) (final : List Target.Event),
          t = turns.flatMap (.tests condition :: ·) ++ final ∧
          (∀ turn ∈ turns, Kept rounds last turn ∨ Skipped rounds turn) ∧
          (body.ends .continued = false → ∀ turn ∈ turns, Kept rounds last turn) ∧
          Final (.tests condition) (rounds ++ last) final := by
  obtain ⟨front, condition, rounds, last, before, between, behind, hwhole, hbody, hlast⟩ :=
    exists_bookkept hloop hout
  have hends : allEnds rounds = body.ends := stmt_ending place true body before rounds between hbody
  have hnone : allEnds last .continued = false :=
    bookkeeping_ending place books between last behind hlast
  have hskipped : (∃ t, Skipped rounds t) ↔ body.ends .continued = true := by
    rw [← hends]
    exact Target.exists_path_run_iff rounds .continued
  refine ⟨front, condition, rounds, last, before, between, behind, hwhole, hbody, hlast,
    Target.path_done_iff, Target.path_continued_iff hnone, hskipped, fun t e hpath => ?_⟩
  obtain ⟨turns, final, ht, hturns, hfinal⟩ := Target.exists_rounds hnone hpath
  refine ⟨turns, final, ht, hturns, fun hno turn hmem => ?_, hfinal⟩
  refine (hturns turn hmem).resolve_right fun hskip => ?_
  rw [hskipped.mp ⟨turn, hskip⟩] at hno
  cases hno

/-- A loop that steps `x` and whose body continues if `b` holds leaves the step out of a round. -/
theorem rounds_skip_bookkeeping_if :
    ∃ front condition rounds last,
      (stmt .outside false (.forLoop none none [.step "x" .increment .behind .start]
        (.ifElse (.name "b" .start) .continues none))).outcome .empty =
          (.ok (front ++ [.whileLoop condition (rounds ++ last)]), .empty) ∧
      ∃ t, Skipped rounds t := by
  obtain ⟨front, condition, rounds, last, _, _, _, hout, _, _, _, _, hskipped, _⟩ :=
    rounds_keep_bookkeeping_iff .outside false .empty .empty
      (.forLoop none none [.step "x" .increment .behind .start]
        (.ifElse (.name "b" .start) .continues none))
      (.ifElse (.name "b" .start) .continues none) (.updates [.step "x" .increment .behind .start])
      [.whileLoop (.bool true) [.ifElse (.name "b") [.continues] .nothing,
        .update (.name "x") (.applying .add) (.number "1")]] rfl rfl
  exact ⟨front, condition, rounds, last, hout ▸ rfl, hskipped.mpr rfl⟩

end Lowering

namespace Program

open Target (Path)

def continuesFirst (m : Target.Module) : Bool :=
  match m.chunks with
  | [.script [_, .whileLoop _ [.continues, .update _ _ _]]] => true
  | _ => false

theorem exists_of_continuesFirst {m : Target.Module} (h : continuesFirst m = true) :
    ∃ first condition target op value, m.chunks =
      [.script [first, .whileLoop condition [.continues, .update target op value]]] := by
  unfold continuesFirst at h
  split at h
  · next hchunks => exact ⟨_, _, _, _, _, hchunks⟩
  · cases h

/-- No round of this loop steps `i`, so it goes on for ever. -/
theorem continue_passes_update :
    ∃ program m, ofSource "for (int i = 0; i != 3; i++) \x7b continue; \x7d" = .ok program ∧
      program.toModule = .ok m ∧ ∃ first condition target op value,
        m.chunks = [.script [first,
          .whileLoop condition [.continues, .update target op value]]] ∧
        ∀ t e, Path (.run [.continues, .update target op value]) t e → t = [] ∧ e = .continued :=
  exists_module (fun _ m => continuesFirst m = true) (by decide +kernel) fun _ m _ hfirst => by
    obtain ⟨first, condition, target, op, value, hchunks⟩ := exists_of_continuesFirst hfirst
    refine ⟨first, condition, target, op, value, hchunks, fun t e hpath => ?_⟩
    cases hpath with
    | next hcontinue _ => cases (Target.path_continues_iff.mp hcontinue).2
    | stops hcontinue _ => exact Target.path_continues_iff.mp hcontinue

end Program

end MiniJava
