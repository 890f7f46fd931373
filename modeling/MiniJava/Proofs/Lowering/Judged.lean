import MiniJava.Proofs.Lowering.Operations

/-!
# The checks behind emitted operations

The checker judges every operation that the lowering of a tidy program writes, although the two go
through the program on their own.
-/

namespace MiniJava

open SymbolTable (Agree Level Move)
open Target (Application allApplications)

namespace Lowering

/-- A bound that is reached is compared with `<=` or `>=`. -/
theorem inclusive_of_detect {init body : Stmt} {e : Option Expr} {update : List Expr}
    {loop : RangeLoop} (h : RangeLoop.detect? init e update body = some loop) :
    ∃ op position, e = some (.binary op (.name loop.counter position) loop.stop) ∧
      (loop.inclusive = true → op = .le ∨ op = .ge) := by
  obtain ⟨-, op, position, rfl, -⟩ := RangeLoop.exists_of_detect h
  refine ⟨op, position, rfl, fun hinclusive => ?_⟩
  simp only [RangeLoop.detect?, Option.bind_eq_bind, Option.bind_eq_some_iff] at h
  obtain ⟨counter, -, _, hcondition, ⟨comparison, bound⟩, hbound, step, -, inclusive, hreached,
    hloop⟩ := h
  cases hcondition
  split at hloop
  · cases hloop
    simp only [RangeLoop.bound?, if_pos] at hbound
    cases hbound
    cases op <;> simp_all [RangeLoop.inclusive?]
  · cases hloop

def elseChecks (expected : Option ValueType) (branch : Option Stmt) : List Check :=
  branch.elim [] (Stmt.checks expected)

def defaultChecks (expected : Option ValueType) (default : Option (List Stmt)) : List Check :=
  default.elim [] (bodyChecks expected)

def cleanupChecks (expected : Option ValueType) (cleanup : Option (List Stmt)) : List Check :=
  cleanup.elim [] fun body => .enter :: bodyChecks expected body ++ [.leave]

theorem checks_ifElse (expected : Option ValueType) (e : Expr) (thenBranch : Stmt)
    (elseBranch : Option Stmt) : (Stmt.ifElse e thenBranch elseBranch).checks expected =
      Conditional.ifElse.checks e ++ (thenBranch.checks expected ++
        elseChecks expected elseBranch) := by
  cases elseBranch with
  | none => simp [Stmt.checks, elseChecks]
  | some branch => simp [Stmt.checks, elseChecks]

theorem checks_switch (expected : Option ValueType) (scrutinee : Expr)
    (cases : List (SwitchCase Stmt)) (default : Option (List Stmt)) :
    (Stmt.switch scrutinee cases default).checks expected = scrutinee.checks ++
      (.enter :: (caseChecks expected cases ++ defaultChecks expected default) ++ [.leave]) := by
  cases default with
  | none => simp [Stmt.checks, defaultChecks]
  | some body => rfl

theorem checks_tryCatch (expected : Option ValueType) (body : List Stmt)
    (catches : List (CatchClause Stmt)) (cleanup : Option (List Stmt)) :
    (Stmt.tryCatch body catches cleanup).checks expected =
      (.enter :: bodyChecks expected body ++ [.leave]) ++
        (catchChecks expected catches ++ cleanupChecks expected cleanup) := by
  cases cleanup with
  | none => simp [Stmt.checks, cleanupChecks]
  | some lines => simp [Stmt.checks, cleanupChecks]

def groupApplications (groups : List (Target.Expr × List Target.Stmt)) : List Application :=
  groups.flatMap fun group => group.1.applications ++ allApplications group.2

theorem alternatives_applications (default : Option (List Target.Stmt))
    (groups : List (Target.Expr × List Target.Stmt)) :
    (alternatives default groups).applications =
      groupApplications groups ++ allApplications (default.getD []) := by
  induction groups with
  | nil => cases default <;> rfl
  | cons first rest ih =>
      simp only [alternatives, Target.Alternative.applications, ih, groupApplications,
        List.flatMap_cons, List.append_assoc]

theorem chain_applications (groups : List (Target.Expr × List Target.Stmt))
    (default : Option (List Target.Stmt)) :
    allApplications (chain groups default) =
      groupApplications groups ++ allApplications (default.getD []) := by
  cases groups with
  | nil => rfl
  | cons first rest =>
      simp only [chain, allApplications, Target.Stmt.applications, alternatives_applications,
        groupApplications, List.flatMap_cons, List.append_assoc, List.append_nil]

theorem tryExcept_applications (body : List Target.Stmt)
    (handlers : List (Target.Handler Target.Stmt)) (cleanup : Option (List Target.Stmt)) :
    (Target.Stmt.tryExcept body handlers cleanup).applications =
      allApplications body ++ Target.handlerApplications handlers ++
        allApplications (cleanup.getD []) := by
  cases cleanup with
  | none => exact (List.append_nil _).symm
  | some lines => rfl

theorem matching_applications (subject label : Target.Expr) (pending : Option Target.Expr) :
    (matching subject pending label).applications =
      (pending.map Target.Expr.applications).getD [] ++
        (subject.applications ++ label.applications) := by
  cases pending <;> simp [matching, Target.Expr.applications, Target.Operator.computes]

end Lowering

open Lowering (Judged)

section Loops

variable {place : Place} {expected : Option ValueType} {names : List String}
  {table after : SymbolTable}

/-- The condition, the body and the updates of a `for` loop that does not count. The updates are
checked in front of the body and written behind it. -/
theorem rounds_judged {e : Option Expr} {update : List Expr} {body : Stmt}
    {begun inner : SymbolTable} {condition : Target.Expr} {lines last : List Target.Stmt}
    {c : Inspection} (hagree : Agree place names begun c.symbols)
    (he : namesIn e.toList ⊆ names) (hupdate : namesIn update ⊆ names)
    (hapart : apart body.declaredWithin (namesIn update) = true)
    (hcondition : (Lowering.loopCondition place e).outcome begun = (.ok condition, begun))
    (hbody : (Lowering.stmt place true body).outcome begun.enter = (.ok lines, inner))
    (hlast : (Lowering.effects place update).outcome inner = (.ok last, inner))
    (hlines : Judged (((c.forCondition e).exprs update).symbols.visits (body.checks expected))
      (allApplications lines)) :
    Judged (c.symbols.visits (headerChecks e update ++ body.checks expected))
      (allApplications [.whileLoop condition (lines ++ last)]) := by
  have htest : Judged (c.symbols.visits (headerChecks e update)) condition.applications :=
    Lowering.loopCondition_judged (.of_agree hagree he) hcondition
  have hafter := within_agree (hagree.behindOther (c.forCondition_bare e)) hbody hapart hupdate
  have hupdates : Judged (c.symbols.visits (headerChecks e update)) (allApplications last) := by
    have hrun : c.forCondition e = c.run (e.toList.flatMap Conditional.forLoop.checks) := by
      have hheader := c.run_header e []
      rwa [headerChecks, List.flatMap_nil, List.append_nil] at hheader
    exact .behind hrun (Lowering.effects_judged (.of_agree hafter (List.Subset.refl _)) hlast)
  rw [allApplications, allApplications, List.append_nil, Target.Stmt.applications,
    Target.allApplications_append]
  exact htest.before.append
    ((Judged.behind (c.run_header e update) hlines).append hupdates.before)

/-- The start and the stop of a counting loop. -/
theorem counter_judged (expected : Option ValueType) {init body : Stmt} {e : Option Expr}
    {update : List Expr} {loop : RangeLoop} {start stop : Target.Expr} {c : Inspection}
    (hdetect : RangeLoop.detect? init e update body = some loop) (hloop : loop.tidy init = true)
    (hagree : Agree place names table c.symbols) (hinit : init.mentions ⊆ names)
    (he : namesIn e.toList ⊆ names)
    (h : (Lowering.rangeBounds place loop).outcome table = (.ok (start, stop), after)) :
    Judged (c.symbols.visits (init.checks expected ++ headerChecks e update))
      (start.applications ++ stop.applications) := by
  obtain ⟨first, bound, hfirst, hbound, -, hpair⟩ := Lowering.exists_of_rangeBounds h
  obtain ⟨rfl, rfl⟩ := Prod.mk.inj hpair
  obtain ⟨hcounter, -⟩ := RangeLoop.exists_of_detect hdetect
  obtain ⟨op, position, rfl, hinclusive⟩ := Lowering.inclusive_of_detect hdetect
  obtain ⟨decl, rfl, hname, hstart, -⟩ := RangeLoop.exists_of_tidy hloop hcounter
  rw [RangeLoop.tidy, Bool.and_eq_true] at hloop
  simp only [Stmt.mentions, hstart, Option.toList_some, namesIn, List.flatMap_singleton,
    List.cons_subset] at hinit
  simp only [Option.toList_some, namesIn, List.flatMap_singleton, Expr.names,
    List.singleton_append, List.cons_subset] at he
  have hstop := (hagree.mono he.2).extendOther
    (Inspection.stmt_extends expected (.declare decl) c) fun name hmem => by
      rw [Stmt.declared, hname]
      exact not_mem_of_apart hloop.2 hmem
  have hinitial : (Lowering.initial place decl).outcome table = (.ok start, table) := by
    rw [Lowering.initial, hstart]
    exact hfirst
  have hdeclares : Judged (c.symbols.visits ((Stmt.declare decl).checks expected))
      start.applications := by
    refine Lowering.initial_judged false (.of_agree hagree ?_) hinitial
    simpa only [hstart, Option.toList_some, namesIn, List.flatMap_singleton] using hinit.2
  have hlast := Lowering.bound_judged position hinclusive (.of_agree hstop (List.Subset.refl _)) hbound
  refine hdeclares.before.append (.behind (Inspection.run_stmt expected _ c) ?_)
  rw [headerChecks, Option.toList_some, List.flatMap_singleton]
  exact hlast.before.before

end Loops

mutual

/-- What a tidy statement becomes has no operation that the checker does not judge. The induction is
that of `stmt_agree`; the tables need only agree on the names in the statement. -/
theorem stmt_judged (place : Place) (expected : Option ValueType) : (s : Stmt) →
    ∀ {shared : Bool} {names : List String} {table after : SymbolTable} {out : List Target.Stmt}
      (c : Inspection), s.tidy = true → s.mentions ⊆ names → Agree place names table c.symbols →
      Ready shared names table c.symbols s →
      (Lowering.stmt place shared s).outcome table = (.ok out, after) →
        Judged (c.symbols.visits (s.checks expected)) (allApplications out)
  | .declare decl, shared, names, table, after, out, c, htidy, hsub, hagree, hready, h => by
      obtain ⟨source, hsource, -, rfl⟩ := Lowering.exists_of_declare h
      rw [Stmt.mentions, List.cons_subset] at hsub
      have hinitial := Lowering.initial_judged false (.of_agree hagree hsub.2) hsource
      simpa only [allApplications, Target.Stmt.applications, Lowering.reference_applications,
        List.nil_append, List.append_nil, Stmt.checks] using hinitial
  | .expression e, shared, names, table, after, out, c, htidy, hsub, hagree, hready, h => by
      rw [Lowering.stmt] at h
      exact Lowering.effect_judged (.of_agree hagree hsub) h
  | .block body, shared, names, table, after, out, c, htidy, hsub, hagree, hready, h => by
      rw [Stmt.mentions] at hsub
      rw [Stmt.tidy] at htidy
      rw [Stmt.checks]
      cases shared with
      | true =>
          rw [Lowering.stmt, if_pos rfl] at h
          have hlevel : Level names table c.enter.symbols := fun name _ => by
            rw [SymbolTable.bare, hready rfl]
            rfl
          exact (stmts_judged place expected body c.enter htidy hsub hagree.enterOther hlevel
            h).within
      | false =>
          obtain ⟨inner, hinner, -⟩ := Lowering.exists_of_block h
          exact (stmts_judged place expected body c.enter htidy hsub hagree.enter.enterOther
            .enter hinner).within
  | .ifElse e thenBranch elseBranch, shared, names, table, after, out, c, htidy, hsub, hagree,
      hready, h => by
      obtain ⟨condition, lines, inner, rest, hcondition, hbody, hrest, rfl⟩ :=
        Lowering.exists_of_ifElse h
      obtain ⟨⟨hdeclared, hthenTidy⟩, helseTidy⟩ := Stmt.tidy_ifElse htidy
      obtain ⟨he, hthenSub, helseSub⟩ := Stmt.mentions_ifElse hsub
      have htested := c.condition_bare .ifElse e
      have htest : Judged (c.symbols.visits (Conditional.ifElse.checks e)) condition.applications :=
        Lowering.condition_judged (.of_agree hagree he) hcondition
      have hthen := stmt_judged place expected thenBranch (c.condition .ifElse e) hthenTidy hthenSub
        (hagree.enter.behindOther htested) (.body hdeclared) hbody
      obtain ⟨hleave, hchecked⟩ := branch_bare expected hdeclared hbody (c.condition .ifElse e)
      have helse := else_judged place expected elseBranch _ helseTidy helseSub
        (hagree.behind hleave (hchecked.trans htested)) hrest
      have hbranches := hthen.before.append (.behind (Inspection.run_stmt expected thenBranch _) helse)
      rw [Lowering.checks_ifElse]
      simpa only [allApplications, Target.Stmt.applications, List.append_nil, List.append_assoc]
        using htest.before.append (.behind (c.run_condition .ifElse e) hbranches)
  | .whileLoop e body, shared, names, table, after, out, c, htidy, hsub, hagree, hready, h => by
      obtain ⟨condition, lines, inner, hcondition, hbody, -, rfl⟩ :=
        Lowering.exists_of_whileLoop h
      rw [Stmt.mentions, List.append_subset] at hsub
      simp only [Stmt.tidy, Bool.and_eq_true, List.isEmpty_iff] at htidy
      have htest : Judged (c.symbols.visits (Conditional.whileLoop.checks e))
          condition.applications := Lowering.condition_judged (.of_agree hagree hsub.1) hcondition
      have hlines := stmt_judged place expected body (c.condition .whileLoop e) htidy.2 hsub.2
        (hagree.enter.behindOther (c.condition_bare .whileLoop e)) (.body htidy.1) hbody
      rw [allApplications, allApplications, List.append_nil]
      exact htest.before.append (.behind (c.run_condition .whileLoop e) hlines)
  | .doWhile body e, shared, names, table, after, out, c, htidy, hsub, hagree, hready, h => by
      obtain ⟨lines, condition, inner, hbody, hcondition, -, rfl⟩ := Lowering.exists_of_doWhile h
      rw [Stmt.mentions, List.append_subset] at hsub
      simp only [Stmt.tidy, Bool.and_eq_true, List.isEmpty_iff] at htidy
      have hlines := stmt_judged place expected body c htidy.1.2 hsub.1 hagree.enter
        (.body htidy.1.1) hbody
      have hagreed := (within_agree hagree hbody htidy.2 hsub.2).behindOther
        (branch_bare expected htidy.1.1 hbody c).2
      have htest : Judged ((c.stmt expected body).symbols.visits (Conditional.doWhile.checks e))
          condition.applications :=
        Lowering.condition_judged (.of_agree hagreed (List.Subset.refl _)) hcondition
      have hall := hlines.before.append (.behind (Inspection.run_stmt expected body c) htest)
      simpa only [allApplications, Target.Stmt.applications, Target.Alternative.applications,
        Target.allApplications_append, Lowering.exitUnless, Target.Expr.applications,
        List.nil_append, List.append_nil, Stmt.checks] using hall
  | .forLoop none e update body, shared, names, table, after, out, c, htidy, hsub, hagree, hready,
      h => by
      obtain ⟨condition, lines, last, inner, hcondition, hbody, hlast, -, rfl⟩ :=
        Lowering.exists_of_bareFor h
      rw [Stmt.mentions, List.append_subset, List.append_subset] at hsub
      simp only [Stmt.tidy, Bool.and_eq_true, List.isEmpty_iff] at htidy
      have hentered : Agree place names table.enter c.enter.symbols := hagree.enter.enterOther
      have hlines := stmt_judged place expected body _ htidy.1.2 hsub.2
        (hentered.enter.behindOther (c.enter.header_bare e update)) (.body htidy.1.1) hbody
      exact (rounds_judged hentered hsub.1.1 hsub.1.2 htidy.2 hcondition hbody hlast hlines).within
  | .forLoop (some init) e update body, shared, names, table, after, out, c, htidy, hsub, hagree,
      hready, h => by
      rw [Stmt.mentions, List.append_subset, List.append_subset, List.append_subset] at hsub
      obtain ⟨⟨⟨hinitSub, he⟩, hupdate⟩, hbodySub⟩ := hsub
      have hentered : Agree place names table.enter c.enter.symbols := hagree.enter.enterOther
      rw [Stmt.checks, List.append_assoc]
      cases hdetect : RangeLoop.detect? init e update body with
      | none =>
          simp only [Stmt.tidy, Bool.and_eq_true, List.isEmpty_iff, hdetect] at htidy
          obtain ⟨⟨⟨hdeclared, hbodyTidy⟩, hinitTidy⟩, hapart⟩ := htidy
          obtain ⟨first, begun, condition, lines, last, inner, hfirst, hcondition, hbody, hlast, -,
            rfl⟩ := Lowering.exists_of_for hdetect h
          have hinit := stmt_judged place expected init c.enter hinitTidy hinitSub hentered
            (.of_level .enter) hfirst
          have hbegun := (stmt_move expected hinitTidy hfirst c.enter).agree hentered .enter
          have hlines := stmt_judged place expected body _ hbodyTidy hbodySub
            (hbegun.enter.behindOther (Inspection.header_bare _ e update)) (.body hdeclared) hbody
          rw [Target.allApplications_append]
          exact (hinit.before.append (.behind (Inspection.run_stmt expected init c.enter)
            (rounds_judged hbegun he hupdate hapart hcondition hbody hlast hlines))).within
      | some loop =>
          simp only [Stmt.tidy, Bool.and_eq_true, List.isEmpty_iff, hdetect] at htidy
          obtain ⟨⟨⟨hdeclared, hbodyTidy⟩, hinitTidy⟩, hloop⟩ := htidy
          obtain ⟨start, stop, lines, inner, hbounds, hbody, -, rfl⟩ :=
            Lowering.exists_of_range hdetect h
          obtain ⟨hcounted, -⟩ := counter_agree expected hdetect hloop hentered .enter hinitSub he
          have hlines := stmt_judged place expected body _ hbodyTidy hbodySub
            (hcounted.enter.behindOther (Inspection.header_bare _ e update)) (.body hdeclared) hbody
          have hheader := counter_judged expected hdetect hloop hentered hinitSub he hbounds
          have hrun : ((c.enter.stmt expected init).forCondition e).exprs update =
              c.enter.run (init.checks expected ++ headerChecks e update) := by
            rw [Inspection.run_append, ← Inspection.run_stmt, Inspection.run_header]
          rw [← List.append_assoc]
          simpa only [allApplications, Target.Stmt.applications, Lowering.reference_applications,
            List.nil_append, List.append_nil] using (hheader.before.append (.behind hrun hlines)).within
  | .switch scrutinee cases default, shared, names, table, after, out, c, htidy, hsub, hagree,
      hready, h => by
      obtain ⟨subject, labels, between, rest, hsubject, hlabels, hdefault, rfl⟩ :=
        Lowering.exists_of_switch h
      obtain ⟨hcasesTidy, hdefaultTidy⟩ := Stmt.tidy_switch htidy
      obtain ⟨he, hcasesSub⟩ := Stmt.mentions_switch hsub
      have hrun := Inspection.run_expr scrutinee c
      have hentered : Agree place names table (c.expr scrutinee).after.enter.symbols :=
        (hagree.behindOther (Inspection.expr_bare scrutinee c)).enterOther
      have hscrutinee := Lowering.value_judged (.of_agree hagree he) hsubject
      rw [Lowering.checks_switch, Lowering.chain_applications]
      obtain ⟨hlist, hbehind, hlevel⟩ := labels_judged place expected cases
        (c.expr scrutinee).after.enter hcasesTidy hcasesSub hentered .enter hscrutinee.before .nil
        (fun operations hcases => .behind hrun hcases.before.within) hlabels
      have hrest := default_judged place expected default _ hdefaultTidy hbehind hlevel hdefault
      exact hlist.append
        (.behind hrun (Judged.behind (Inspection.run_cases expected cases _) hrest).within)
  | .tryCatch body catches cleanup, shared, names, table, after, out, c, htidy, hsub, hagree,
      hready, h => by
      obtain ⟨first, inner, caught, between, last, hfirst, hcaught, hlast, rfl⟩ :=
        Lowering.exists_of_tryCatch h
      obtain ⟨hbodyTidy, hcatchesTidy, hcleanupTidy⟩ := Stmt.tidy_tryCatch htidy
      obtain ⟨hbodySub, hcatchesSub, hcleanupSub⟩ := Stmt.mentions_tryCatch hsub
      have hbody := stmts_judged place expected body c.enter hbodyTidy hbodySub
        hagree.enter.enterOther .enter hfirst
      have hleave := (Lowering.stmts_refers place body hfirst).scope.leave
      have htried := (Inspection.stmts_extends expected body c.enter).leave
      have hhandlers := handlers_judged place expected catches
        (c.enter.stmts expected body).leave hcatchesTidy hcatchesSub (hagree.behind hleave htried)
        hcaught
      have hbetween := (Lowering.handlers_refers place catches hcaught).scope.bare_eq.trans hleave
      have hchecked := (Inspection.catches_bare expected catches
        (c.enter.stmts expected body).leave).trans htried
      have hcleanup := cleanup_judged place expected cleanup _ hcleanupTidy hcleanupSub
        (hagree.behind hbetween hchecked) hlast
      have hbehind := hhandlers.before.append
        (.behind (Inspection.run_catches expected catches _) hcleanup)
      have hrun := Inspection.run_stmt expected (.block body) c
      rw [Inspection.stmt, Stmt.checks] at hrun
      rw [Lowering.checks_tryCatch, allApplications, allApplications, List.append_nil,
        Lowering.tryExcept_applications, List.append_assoc (allApplications first)]
      exact hbody.within.before.append (.behind hrun hbehind)
  | .print kind args position, shared, names, table, after, out, c, htidy, hsub, hagree, hready,
      h => by
      rw [Lowering.stmt] at h
      rw [Stmt.mentions] at hsub
      exact Lowering.print_judged
        (.of_agree hagree (List.Subset.trans (kind.namesIn_shown_subset args) hsub)) h
  | .returns none position, shared, names, table, after, out, c, htidy, hsub, hagree, hready,
      h => by
      rw [Lowering.stmt] at h
      cases h
      exact .nil
  | .returns (some e) position, shared, names, table, after, out, c, htidy, hsub, hagree, hready,
      h => by
      rw [Lowering.stmt] at h
      obtain ⟨value, hvalue, hpure⟩ := (Lowering.Reads.value place e).exists_of_bind h
      cases hpure
      simp only [Stmt.mentions, Option.toList_some, namesIn, List.flatMap_singleton] at hsub
      have hvalue := Lowering.value_judged (.of_agree hagree hsub) hvalue
      simpa only [allApplications, Target.Stmt.applications, List.append_nil, Stmt.checks,
        returnChecks] using hvalue.before
  | .breaks, shared, names, table, after, out, c, htidy, hsub, hagree, hready, h
  | .continues, shared, names, table, after, out, c, htidy, hsub, hagree, hready, h
  | .empty, shared, names, table, after, out, c, htidy, hsub, hagree, hready, h => by
      rw [Lowering.stmt] at h
      cases h
      exact .nil

theorem stmts_judged (place : Place) (expected : Option ValueType) : (body : List Stmt) →
    ∀ {names : List String} {table after : SymbolTable} {out : List Target.Stmt}
      (c : Inspection), allTidy body = true → allMentions body ⊆ names →
      Agree place names table c.symbols → Level names table c.symbols →
      (Lowering.stmts place body).outcome table = (.ok out, after) →
        Judged (c.symbols.visits (bodyChecks expected body)) (allApplications out)
  | [], names, table, after, out, c, htidy, hsub, hagree, hlevel, h => by
      rw [Lowering.stmts] at h
      cases h
      exact .nil
  | first :: rest, names, table, after, out, c, htidy, hsub, hagree, hlevel, h => by
      obtain ⟨lines, more, between, hlines, hmore, rfl⟩ := Lowering.exists_of_cons h
      rw [allMentions, List.append_subset] at hsub
      rw [allTidy, Bool.and_eq_true] at htidy
      have hfirst := stmt_judged place expected first c htidy.1 hsub.1 hagree (.of_level hlevel)
        hlines
      have hmove := stmt_move expected htidy.1 hlines c
      have hrest := stmts_judged place expected rest (c.stmt expected first) htidy.2 hsub.2
        (hmove.agree hagree hlevel) (hmove.level hlevel) hmore
      rw [Target.allApplications_append]
      exact hfirst.before.append (.behind (Inspection.run_stmt expected first c) hrest)

theorem else_judged (place : Place) (expected : Option ValueType) : (branch : Option Stmt) →
    ∀ {names : List String} {table after : SymbolTable} {out : Target.Alternative}
      (c : Inspection),
      (∀ s, branch = some s → s.declared = [] ∧ s.tidy = true) →
      (∀ s, branch = some s → s.mentions ⊆ names) → Agree place names table c.symbols →
      (Lowering.alternative place branch).outcome table = (.ok out, after) →
        Judged (c.symbols.visits (Lowering.elseChecks expected branch)) out.applications
  | none, names, table, after, out, c, htidy, hsub, hagree, h => by
      rw [Lowering.alternative] at h
      cases h
      exact .nil
  | some branch, names, table, after, out, c, htidy, hsub, hagree, h => by
      obtain ⟨hdeclared, hbranchTidy⟩ := htidy branch rfl
      have hbranch (shared : Bool) {start inner : SymbolTable} {lines : List Target.Stmt}
          (hstart : Agree place names start c.symbols)
          (hready : Ready shared names start c.symbols branch)
          (hbody : (Lowering.stmt place shared branch).outcome start = (.ok lines, inner)) :=
        stmt_judged place expected branch c hbranchTidy (hsub branch rfl) hstart hready hbody
      cases branch with
      | ifElse e thenBranch elseBranch =>
          obtain ⟨condition, body, rest, hstmt, rfl⟩ := Lowering.exists_of_elseIf h
          have hchain := hbranch false hagree True.intro hstmt
          simpa only [allApplications, Target.Stmt.applications, List.append_nil,
            Lowering.elseChecks, Option.elim_some, Target.Alternative.applications] using hchain
      | _ =>
          obtain ⟨body, inner, hbody, -, rfl⟩ := Lowering.exists_of_otherwise (by nofun) h
          exact hbranch true hagree.enter (.body hdeclared) hbody

theorem case_judged (place : Place) (expected : Option ValueType) : (body : List Stmt) →
    ∀ {names : List String} {table after : SymbolTable} {out : List Target.Stmt}
      (c : Inspection), labelTidy body = true → allMentions body ⊆ names →
      Agree place names table c.symbols → Level names table c.symbols →
      (Lowering.caseBody place body).outcome table = (.ok out, after) →
        Judged (c.symbols.visits (bodyChecks expected body)) (allApplications out)
  | [], names, table, after, out, c, htidy, hsub, hagree, hlevel, h => by
      rw [Lowering.caseBody] at h
      cases h
      exact .nil
  | first :: rest, names, table, after, out, c, htidy, hsub, hagree, hlevel, h => by
      rw [allMentions, List.append_subset] at hsub
      have hfirst (hfirstTidy : first.tidy = true) {lines : List Target.Stmt}
          {between : SymbolTable}
          (hlines : (Lowering.stmt place false first).outcome table = (.ok lines, between)) :=
        stmt_judged place expected first c hfirstTidy hsub.1 hagree (.of_level hlevel) hlines
      have hrest (hrestTidy : labelTidy rest = true) {between : SymbolTable}
          {more : List Target.Stmt} (hmove : Move table c.symbols between
            (c.stmt expected first).symbols)
          (hmore : (Lowering.caseBody place rest).outcome between = (.ok more, after)) :=
        case_judged place expected rest (c.stmt expected first) hrestTidy hsub.2
          (hmove.agree hagree hlevel) (hmove.level hlevel) hmore
      by_cases hbreak : first = .breaks
      · rw [hbreak, Lowering.caseBody] at h
        cases h
        exact .nil
      · obtain ⟨lines, more, between, hlines, hmore, rfl⟩ := Lowering.exists_of_label hbreak h
        rw [labelTidy, Bool.and_eq_true] at htidy
        · have hmove := stmt_move expected htidy.1 hlines c
          rw [Target.allApplications_append]
          exact (hfirst htidy.1 hlines).before.append
            (.behind (Inspection.run_stmt expected first c) (hrest htidy.2 hmove hmore))
        · exact hbreak

/-- The subject and the labels that share statements are judged with the whole of the switch. The
names `later` mean the same behind the labels. -/
theorem labels_judged (place : Place) (expected : Option ValueType) :
    (cases : List (SwitchCase Stmt)) → ∀ {visits : List Visit} {later names : List String}
      {table after : SymbolTable} {subject : Target.Expr} {pending : Option Target.Expr}
      {out : List (Target.Expr × List Target.Stmt)} (c : Inspection),
      casesTidy later cases = true → caseMentions cases ++ later ⊆ names →
      Agree place names table c.symbols → Level names table.enter c.symbols →
      Judged visits subject.applications →
      Judged visits ((pending.map Target.Expr.applications).getD []) →
      (∀ operations, Judged (c.symbols.visits (caseChecks expected cases)) operations →
        Judged visits operations) →
      (Lowering.groups place subject pending cases).outcome table = (.ok out, after) →
        Judged visits (Lowering.groupApplications out) ∧
          Agree place later after (c.cases expected cases).symbols ∧
          Level later after.enter (c.cases expected cases).symbols
  | [], visits, later, names, table, after, subject, pending, out, c, htidy, hsub, hagree, hlevel,
      hsubject, hpending, hvisits, h => by
      rw [Lowering.groups] at h
      cases h
      rw [caseMentions, List.nil_append] at hsub
      rw [Inspection.cases]
      exact ⟨.nil, hagree.mono hsub, hlevel.mono hsub⟩
  | ⟨label, []⟩ :: rest, visits, later, names, table, after, subject, pending, out, c, htidy, hsub,
      hagree, hlevel, hsubject, hpending, hvisits, h => by
      obtain ⟨test, htest, hrest⟩ := Lowering.exists_of_emptyLabel h
      rw [caseMentions, allMentions, List.append_nil, List.append_assoc, List.append_subset] at hsub
      rw [casesTidy, Bool.and_eq_true] at htidy
      simp only [caseChecks, bodyChecks, List.append_nil] at hvisits
      have hbare := Inspection.expr_bare label c
      have hlevel' : Level names table.enter (c.expr label).after.symbols := fun name hname => by
        rw [hbare]
        exact hlevel name hname
      have hlabel := Lowering.value_judged (.of_agree hagree hsub.1) htest
      have htests : Judged visits (((some (Lowering.matching subject pending test)).map
          Target.Expr.applications).getD []) := by
        rw [Option.map_some, Option.getD_some, Lowering.matching_applications]
        exact hpending.append (hsubject.append (hvisits _ hlabel.before))
      rw [Inspection.cases, Inspection.stmts]
      exact labels_judged place expected rest (c.expr label).after htidy.2 hsub.2
        (hagree.behindOther hbare) hlevel' hsubject htests
        (fun operations hcases => hvisits _ (.behind (Inspection.run_expr label c) hcases)) hrest
  | ⟨label, first :: body⟩ :: rest, visits, later, names, table, after, subject, pending, out, c,
      htidy, hsub, hagree, hlevel, hsubject, hpending, hvisits, h => by
      obtain ⟨test, lines, inner, more, htest, hlines, hrest, rfl⟩ := Lowering.exists_of_group h
      rw [caseMentions, List.append_assoc, List.append_assoc, List.append_subset,
        List.append_subset] at hsub
      obtain ⟨hlabelSub, hbodySub, hrestSub⟩ := hsub
      simp only [casesTidy, Bool.and_eq_true] at htidy
      obtain ⟨⟨hbodyTidy, hapart⟩, hrestTidy⟩ := htidy
      rw [caseChecks] at hvisits
      have hrun := Inspection.run_expr label c
      have hbare := Inspection.expr_bare label c
      have hlevel' : Level names table.enter (c.expr label).after.symbols := fun name hname => by
        rw [hbare]
        exact hlevel name hname
      have hlabel := Lowering.value_judged (.of_agree hagree hlabelSub) htest
      have hbody := case_judged place expected (first :: body) (c.expr label).after hbodyTidy
        hbodySub (hagree.enter.behindOther hbare) hlevel' hlines
      have htests := hpending.append (hsubject.append (hvisits _ hlabel.before.before))
      rw [← Lowering.matching_applications] at htests
      -- What the body declares stays in scope for the checker, but nothing behind it mentions it.
      have hchecked := Inspection.stmts_extends expected (first :: body) (c.expr label).after
      have hleave := (Lowering.case_refers place (first :: body) hlines).scope.leave
      have hfresh : ∀ name ∈ caseMentions rest ++ later,
          name ∉ (first :: body).flatMap Stmt.declared :=
        fun _ hname => not_mem_of_apart hapart hname
      have hbehind : ((c.expr label).after.stmts expected (first :: body)) =
          c.run (label.checks ++ bodyChecks expected (first :: body)) := by
        rw [Inspection.run_append, ← hrun, Inspection.run_stmts]
      obtain ⟨hmore, hagreed, hlevelled⟩ := labels_judged place expected rest _ hrestTidy
        (List.Subset.refl _)
        (((hagree.mono hrestSub).behind hleave hbare).extendOther hchecked hfresh)
        (fun name hname => (hlevel' name (hrestSub hname)).trans
          (hchecked.lookup (hfresh name hname)).symm) hsubject .nil
        (fun operations hcases => hvisits _ (.behind hbehind hcases)) hrest
      rw [Inspection.cases]
      refine ⟨?_, hagreed, hlevelled⟩
      have hgroup := htests.append (hvisits _ (Judged.behind hrun hbody).before)
      exact hgroup.append hmore

theorem default_judged (place : Place) (expected : Option ValueType) :
    (default : Option (List Stmt)) →
    ∀ {table after : SymbolTable} {out : Option (List Target.Stmt)} (c : Inspection),
      (∀ body, default = some body → labelTidy body = true) →
      Agree place (Stmt.defaultMentions default) table c.symbols →
      Level (Stmt.defaultMentions default) table.enter c.symbols →
      (Lowering.defaultBody place default).outcome table = (.ok out, after) →
        Judged (c.symbols.visits (Lowering.defaultChecks expected default))
          (allApplications (out.getD []))
  | none, table, after, out, c, htidy, hagree, hlevel, h => by
      rw [Lowering.defaultBody] at h
      cases h
      exact .nil
  | some body, table, after, out, c, htidy, hagree, hlevel, h => by
      obtain ⟨lines, inner, hlines, -, rfl⟩ := Lowering.exists_of_default h
      exact case_judged place expected body c (htidy body rfl) (List.Subset.refl _) hagree.enter
        hlevel hlines

theorem handlers_judged (place : Place) (expected : Option ValueType) :
    (catches : List (CatchClause Stmt)) →
    ∀ {names : List String} {table after : SymbolTable} {out : List (Target.Handler Target.Stmt)}
      (c : Inspection), catchesTidy catches = true → catchMentions catches ⊆ names →
      Agree place names table c.symbols →
      (Lowering.handlers place catches).outcome table = (.ok out, after) →
        Judged (c.symbols.visits (catchChecks expected catches)) (Target.handlerApplications out)
  | [], names, table, after, out, c, htidy, hsub, hagree, h => by
      rw [Lowering.handlers] at h
      cases h
      exact .nil
  | ⟨exception, name, body, position⟩ :: rest, names, table, after, out, c, htidy, hsub, hagree,
      h => by
      obtain ⟨lines, inner, more, hlines, hmore, rfl⟩ := Lowering.exists_of_handler h
      rw [catchMentions, List.append_subset] at hsub
      rw [catchesTidy, Bool.and_eq_true] at htidy
      have hbound := c.enter.symbols_declare name ⟨.ofTypeName exception, position, true, false⟩
      have hmove : Move table.enter c.enter.symbols
          (table.enter.bring name (Lowering.declared (.ofTypeName exception) position))
          (c.enter.bound exception name position).symbols :=
        .declare _ _ rfl (congrArg SymbolTable.bare hbound)
      have hbody := stmts_judged place expected body (c.enter.bound exception name position) htidy.1
        hsub.1 (hmove.agree hagree.enter.enterOther .enter) (hmove.level .enter) hlines
      have hleave : inner.leave.bare = table.bare :=
        ((SymbolTable.Extends.bring table.enter ..).trans
          (Lowering.stmts_refers place body hlines).scope).leave
      have hchecked : ((c.enter.bound exception name position).stmts expected
          body).leave.symbols.bare = c.symbols.bare :=
        ((SymbolTable.Extends.bring c.enter.symbols ..).behind
          (congrArg SymbolTable.bare hbound) |>.trans
          (Inspection.stmts_extends expected body _)).leave
      have hrest := handlers_judged place expected rest _ htidy.2 hsub.2
        (hagree.behind hleave hchecked) hmore
      have hcaught : Judged (c.enter.symbols.visits
          ([.declares exception name position true false] ++ bodyChecks expected body))
          (allApplications lines) := .behind rfl hbody
      have hrun : ((c.enter.bound exception name position).stmts expected body).leave = c.run
          (.enter :: ([.declares exception name position true false] ++
            bodyChecks expected body) ++ [.leave]) := by
        simp only [Inspection.run_append, Inspection.run_cons, Inspection.run_nil, Inspection.check,
          Inspection.bound, Inspection.run_stmts]
      exact hcaught.within.before.append (.behind hrun hrest)

theorem cleanup_judged (place : Place) (expected : Option ValueType) :
    (cleanup : Option (List Stmt)) →
    ∀ {names : List String} {table after : SymbolTable} {out : Option (List Target.Stmt)}
      (c : Inspection), (∀ body, cleanup = some body → allTidy body = true) →
      (∀ body, cleanup = some body → allMentions body ⊆ names) →
      Agree place names table c.symbols →
      (Lowering.cleanupBody place cleanup).outcome table = (.ok out, after) →
        Judged (c.symbols.visits (Lowering.cleanupChecks expected cleanup))
          (allApplications (out.getD []))
  | none, names, table, after, out, c, htidy, hsub, hagree, h => by
      rw [Lowering.cleanupBody] at h
      cases h
      exact .nil
  | some body, names, table, after, out, c, htidy, hsub, hagree, h => by
      obtain ⟨lines, inner, hlines, -, rfl⟩ := Lowering.exists_of_cleanup h
      exact (stmts_judged place expected body c.enter (htidy body rfl) (hsub body rfl)
        hagree.enter.enterOther .enter hlines).within

end

section Programs

variable {place : Place} {table after : SymbolTable}

theorem method_judged {decl : Method} {out : Target.Stmt} {c : Inspection}
    (htidy : allTidy decl.body = true) (hbare : table.bare = c.symbols.bare)
    (hinside : place.Inside table.enter)
    (h : (Lowering.method place decl).outcome table = (.ok out, after)) :
    Judged (c.symbols.visits decl.checks) out.applications := by
  obtain ⟨body, inner, hbody, -, rfl⟩ := Lowering.exists_of_method h
  have hentered : table.enter.bare = c.enter.symbols.bare := congrArg SymbolTable.enter hbare
  have hparams := (SymbolTable.bare_bringParams hentered decl.params).trans
    (congrArg SymbolTable.bare (Inspection.symbols_params decl.params c.enter)).symm
  have hmethod : Place.Inside { place with method := some (Lowering.kindOf decl) }
      (table.enter.bringParams decl.params) := fun cls hclass =>
    (SymbolTable.Extends.bringParams table.enter decl.params).inside hinside cls hclass
  have hjudged := stmts_judged _ (some decl.expected) decl.body _ htidy (List.Subset.refl _)
    (.of_bare hparams hmethod _) (.of_bare hparams _) hbody
  have hchecks : Judged (c.enter.symbols.visits
      (decl.params.map Param.check ++ bodyChecks (some decl.expected) decl.body))
      (allApplications body) := .behind (Inspection.run_params decl.params c.enter) hjudged
  exact hchecks.within.before

theorem fields_judged {members : List Member} {out : List Target.Stmt} {c : Inspection}
    (hbare : table.bare = c.symbols.bare)
    (h : (Lowering.fields place members).outcome table = (.ok out, after)) :
    Judged (c.symbols.visits (fieldChecks members)) (allApplications out) ∧
      after.bare = (c.fields members).symbols.bare := by
  induction members generalizing table out c with
  | nil =>
      cases h
      exact ⟨.nil, hbare⟩
  | cons member rest ih =>
      cases member with
      | field decl =>
          obtain ⟨source, more, hsource, hmore, rfl⟩ := Lowering.exists_of_field h
          have hdeclared : (table.bring decl.name (Lowering.declared (.ofTypeName decl.type)
              decl.position)).bare = (c.declaration decl true).symbols.bare := by
            rw [c.declaration_bare decl true false true, SymbolTable.bare_bring,
              SymbolTable.bare_bring, hbare]
            rfl
          obtain ⟨hrest, hafter⟩ := ih hdeclared hmore
          refine ⟨?_, hafter⟩
          have hinitial := Lowering.initial_judged true (.of_bare hbare) hsource
          exact hinitial.before.append (.behind (c.run_declaration decl true) hrest)
      | method decl => exact ih hbare h
      | nested decl => exact ih hbare h

end Programs

mutual

theorem class_judged : (decl : ClassDecl) →
    ∀ {table after : SymbolTable} {out : Target.Stmt} (c : Inspection),
      ClassDecl.tidy decl = true → table.bare = c.symbols.bare →
      (Lowering.classDecl decl).outcome table = (.ok out, after) →
        Judged (c.symbols.visits (classChecks decl)) out.applications
  | ⟨modifiers, name, members, position⟩, table, after, out, c, htidy, hbare, h => by
      obtain ⟨front, rest, between, inner, hfront, hrest, -, rfl⟩ := Lowering.exists_of_class h
      have hentered : table.enter.bare = c.enter.symbols.bare := congrArg SymbolTable.enter hbare
      obtain ⟨hfields, hbetween⟩ := fields_judged hentered hfront
      have hinside : Place.Inside ⟨some ⟨name, table.enter.depth - 1⟩, none⟩ between.enter := by
        refine (Lowering.fields_refers rfl hfront).scope.inside_enter fun cls hclass => ?_
        cases hclass
        exact Nat.lt_succ_self _
      rw [ClassDecl.tidy] at htidy
      have hmembers := members_judged _ members (c.enter.fields members) htidy hbetween hinside
        hrest
      rw [classChecks, Target.Stmt.applications, Target.allApplications_append]
      exact (hfields.before.append (.behind (Inspection.run_fields members c.enter) hmembers)).within

theorem members_judged (place : Place) : (members : List Member) →
    ∀ {table after : SymbolTable} {out : List Target.Stmt} (c : Inspection),
      membersTidy members = true → table.bare = c.symbols.bare → place.Inside table.enter →
      (Lowering.definitions place members).outcome table = (.ok out, after) →
        Judged (c.symbols.visits (memberChecks members)) (allApplications out)
  | [], table, after, out, c, htidy, hbare, hinside, h => by
      rw [Lowering.definitions] at h
      cases h
      exact .nil
  | .field decl :: rest, table, after, out, c, htidy, hbare, hinside, h => by
      rw [Lowering.definitions] at h
      rw [membersTidy] at htidy
      rw [memberChecks]
      exact members_judged place rest c htidy hbare hinside h
  | .method decl :: rest, table, after, out, c, htidy, hbare, hinside, h => by
      rw [Lowering.definitions] at h
      rw [membersTidy, Bool.and_eq_true] at htidy
      obtain ⟨line, more, between, hline, hmore, rfl⟩ := Lowering.exists_of_pair h
      have hscope := (Lowering.method_refers hline).scope
      have hrest := members_judged place rest (c.method decl) htidy.2
        ((hscope.bare_eq.trans hbare).trans (c.method_bare decl).symm)
        (hscope.inside_enter hinside) hmore
      rw [memberChecks]
      exact (method_judged htidy.1 hbare hinside hline).before.append
        (.behind (Inspection.run_method decl c) hrest)
  | .nested decl :: rest, table, after, out, c, htidy, hbare, hinside, h => by
      rw [Lowering.definitions] at h
      rw [membersTidy, Bool.and_eq_true] at htidy
      obtain ⟨line, more, between, hline, hmore, rfl⟩ := Lowering.exists_of_pair h
      have hscope := (Lowering.class_refers decl hline).scope
      have hrest := members_judged place rest (c.classDecl decl) htidy.2
        ((hscope.bare_eq.trans hbare).trans (Inspection.classDecl_bare decl c).symm)
        (hscope.inside_enter hinside) hmore
      rw [memberChecks]
      exact (class_judged decl c htidy.1 hbare hline).before.append
        (.behind (Inspection.run_classDecl decl c) hrest)

end

theorem item_judged {i : Item} {table after : SymbolTable} {chunk : Target.Chunk} {c : Inspection}
    (htidy : i.tidy = true) (hbare : table.bare = c.symbols.bare)
    (h : (Lowering.item i).outcome table = (.ok chunk, after)) :
    Judged (c.symbols.visits i.checks) chunk.applications := by
  cases i with
  | declaration decl =>
      obtain ⟨line, _, hline, hpure⟩ := Lowering.exists_of_bind h
      cases hpure
      exact class_judged decl c htidy hbare hline
  | statement s =>
      obtain ⟨lines, _, hlines, hpure⟩ := Lowering.exists_of_bind h
      cases hpure
      have hinside : Place.outside.Inside table := fun _ hclass => by cases hclass
      exact stmt_judged .outside none s c htidy (List.Subset.refl _) (.of_bare hbare hinside _)
        (.of_level (.of_bare hbare _)) hlines

theorem items_judged {list : List Item} {table after : SymbolTable} {chunks : List Target.Chunk}
    {c : Inspection} (htidy : list.all Item.tidy = true) (hbare : table.bare = c.symbols.bare)
    (h : (Lowering.items list).outcome table = (.ok chunks, after)) :
    Judged (c.symbols.visits (list.flatMap Item.checks))
      (chunks.flatMap Target.Chunk.applications) := by
  induction list generalizing table chunks c with
  | nil =>
      cases h
      exact .nil
  | cons first rest ih =>
      rw [List.all_cons, Bool.and_eq_true] at htidy
      obtain ⟨chunk, more, between, hchunk, hmore, rfl⟩ := Lowering.exists_of_pair h
      obtain ⟨-, hbetween⟩ := item_agree htidy.1 hbare hchunk
      exact (item_judged htidy.1 hbare hchunk).before.append
        (.behind (Inspection.run_item first c) (ih htidy.2 hbetween hmore))

/-- In a tidy program the checker judges every operation of the emitted code. -/
theorem Program.applications_judged {program : Program} {m : Target.Module}
    (h : program.toModule = .ok m) (htidy : program.tidy = true) :
    Judged program.visits m.applications := by
  obtain ⟨after, hitems⟩ := exists_of_toModule h
  have hjudged : Judged (Inspection.start.symbols.visits program.checks) m.applications :=
    items_judged htidy rfl hitems
  exact hjudged

end MiniJava
