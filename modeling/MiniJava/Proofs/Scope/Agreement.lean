import MiniJava.Proofs.Diagnostics.Meanings
import MiniJava.Proofs.Lowering.Breaks
import MiniJava.Proofs.Lowering.References

/-!
# Names mean the same to the checker and to the lowering

The checker and the lowering go through a program on their own, and they draw scopes in different
places. In a tidy program every name that reaches the emitted text has the same declaration in
both, and what it is reached through there is what it is reached through in the checker's table.
-/

namespace MiniJava

open SymbolTable (Agree Level Move Extends)

section Statements

variable {place : Place} {shared : Bool} {expected : Option ValueType} {names : List String}
  {table after : SymbolTable}

theorem declare_move (expected : Option ValueType) {decl : VarDecl} {out : List Target.Stmt}
    (h : (Lowering.stmt place shared (.declare decl)).outcome table = (.ok out, after))
    (c : Inspection) :
    Move table c.symbols after (c.stmt expected (.declare decl)).symbols := by
  obtain ⟨source, -, rfl, -⟩ := Lowering.exists_of_declare h
  rw [Inspection.stmt]
  exact .declare _ _ rfl (c.declaration_bare decl false false true)

/-- Both walks take up what a tidy statement declares. -/
theorem stmt_move (expected : Option ValueType) {s : Stmt} {out : List Target.Stmt}
    (htidy : s.tidy = true) (h : (Lowering.stmt place false s).outcome table = (.ok out, after))
    (c : Inspection) : Move table c.symbols after (c.stmt expected s).symbols := by
  by_cases hdeclare : ∃ decl, s = .declare decl
  · obtain ⟨decl, rfl⟩ := hdeclare
    exact declare_move expected h c
  · have hdeclared : s.declared = [] := Stmt.declared_eq_nil htidy (by simpa using hdeclare)
    have hafter := (Lowering.stmt_refers place false s h).scope
    have hchecked := Inspection.stmt_extends expected s c
    rw [Lowering.declaredNames, if_neg Bool.false_ne_true, hdeclared] at hafter
    rw [hdeclared] at hchecked
    exact .stay hafter.bare_eq hchecked.bare_eq

/-- A statement under an `if` or a loop leaves both tables as they are. -/
theorem branch_bare (expected : Option ValueType) {s : Stmt} {out : List Target.Stmt}
    (hdeclared : s.declared = [])
    (h : (Lowering.stmt place true s).outcome table.enter = (.ok out, after)) (c : Inspection) :
    after.leave.bare = table.bare ∧ (c.stmt expected s).symbols.bare = c.symbols.bare := by
  have hchecked := Inspection.stmt_extends expected s c
  rw [hdeclared] at hchecked
  exact ⟨(Lowering.stmt_refers place true s h).scope.leave, hchecked.bare_eq⟩

theorem expr_agree {e : Expr} {c : Inspection} (hagree : Agree place names table c.symbols)
    (hsub : e.names ⊆ names) : place.meanings table e.names = c.exprMeanings place e :=
  (hagree.meanings hsub).trans (Inspection.exprMeanings_eq place e c).symm

theorem exprs_agree {list : List Expr} {c : Inspection} (hagree : Agree place names table c.symbols)
    (hsub : namesIn list ⊆ names) :
    place.meanings table (namesIn list) = c.exprsMeanings place list :=
  (hagree.meanings hsub).trans (Inspection.exprsMeanings_eq place list c).symm

/-- What a body declares within its braces is not in the way of names that are apart from it. -/
theorem within_agree {s : Stmt} {out : List Target.Stmt} {used : List String} {other : SymbolTable}
    (hagree : Agree place names table other)
    (h : (Lowering.stmt place true s).outcome table.enter = (.ok out, after))
    (hapart : apart s.declaredWithin used = true) (hsub : used ⊆ names) :
    Agree place used after other :=
  (hagree.enter.mono hsub).extend (Lowering.stmt_refers place true s h).scope
    fun _ hname => not_mem_of_apart hapart hname

/-- Where a statement starts: the scopes that a declaration adds to have the same declarations, and
nothing has been declared yet in a scope that is drawn around a body. -/
def Ready (shared : Bool) (names : List String) (table other : SymbolTable) : Stmt → Prop
  | .declare _ => Level names table other
  | .block _ => shared = true → table.current = []
  | _ => True

theorem Ready.of_level {s : Stmt} {other : SymbolTable} (h : Level names table other) :
    Ready false names table other s := by
  cases s <;> simp_all [Ready]

theorem Ready.body {s : Stmt} {other : SymbolTable} (hdeclared : s.declared = []) :
    Ready true names table.enter other s := by
  cases s with
  | declare decl => cases hdeclared
  | block body => exact fun _ => rfl
  | _ => exact True.intro

/-- The condition, the body and the updates of a `for` loop that does not count. -/
theorem rounds_agree {e : Option Expr} {update : List Expr} {body : Stmt}
    {begun inner : SymbolTable} {lines : List Target.Stmt} {c : Inspection}
    (hagree : Agree place names begun c.symbols) (he : namesIn e.toList ⊆ names)
    (hupdate : namesIn update ⊆ names) (hapart : apart body.declaredWithin (namesIn update) = true)
    (hbody : (Lowering.stmt place true body).outcome begun.enter = (.ok lines, inner))
    (hmeanings : Lowering.meanings place true begun.enter body =
      ((c.forCondition e).exprs update).meanings place expected body) :
    place.meanings begun (namesIn e.toList) ++
        (Lowering.meanings place true begun.enter body ++ place.meanings inner (namesIn update)) =
      c.exprsMeanings place e.toList ++
        (((c.forCondition e).exprs update).meanings place expected body ++
          (c.forCondition e).exprsMeanings place update) := by
  have htested := hagree.behindOther (c.forCondition_bare e)
  rw [exprs_agree hagree he, hmeanings,
    exprs_agree (within_agree htested hbody hapart hupdate) (List.Subset.refl _)]

/-- The header of a counting loop. -/
theorem counter_agree (expected : Option ValueType) {init body : Stmt} {e : Option Expr}
    {update : List Expr} {loop : RangeLoop} {c : Inspection}
    (hdetect : RangeLoop.detect? init e update body = some loop) (hloop : loop.tidy init = true)
    (hagree : Agree place names table c.symbols) (hlevel : Level names table c.symbols)
    (hinit : init.mentions ⊆ names) (he : namesIn e.toList ⊆ names) :
    Agree place names (Lowering.counted loop table) (c.stmt expected init).symbols ∧
      place.meaning (Lowering.counted loop table) loop.counter ::
          place.meanings table loop.start.names ++ place.meanings table loop.stop.names =
        place.meaning (c.stmt expected init).symbols loop.counter ::
          c.exprMeanings place loop.start ++
          (c.stmt expected init).exprMeanings place loop.stop := by
  obtain ⟨hcounter, op, position, rfl, -⟩ := RangeLoop.exists_of_detect hdetect
  obtain ⟨decl, rfl, hname, hstart, htype, hposition⟩ := RangeLoop.exists_of_tidy hloop hcounter
  rw [RangeLoop.tidy, Bool.and_eq_true] at hloop
  simp only [Stmt.mentions, hstart, Option.toList_some, namesIn, List.flatMap_singleton,
    List.cons_subset] at hinit
  simp only [Option.toList_some, namesIn, List.flatMap_singleton, Expr.names,
    List.singleton_append, List.cons_subset] at he
  have hmove : Move table c.symbols (Lowering.counted loop table)
      (c.stmt expected (.declare decl)).symbols := by
    rw [Inspection.stmt, Lowering.counted, ← hname, htype, hposition]
    exact .declare _ _ rfl (c.declaration_bare decl false false true)
  have hcounted := hmove.agree hagree hlevel
  have hextends := Inspection.stmt_extends expected (.declare decl) c
  have hstop := (hagree.mono he.2).extendOther hextends fun name hmem => by
    rw [Stmt.declared, hname]
    exact not_mem_of_apart hloop.2 hmem
  refine ⟨hcounted, ?_⟩
  rw [hcounted.meaning _ he.1, expr_agree hagree hinit.2, expr_agree hstop (List.Subset.refl _)]

end Statements

theorem PrintKind.namesIn_shown_subset (kind : PrintKind) (args : List Expr) :
    namesIn (kind.shown args) ⊆ namesIn args := by
  have htake : namesIn (args.take 1) ⊆ namesIn args := fun name hname => by
    obtain ⟨e, he, hmem⟩ := List.mem_flatMap.mp hname
    exact List.mem_flatMap.mpr ⟨e, List.mem_of_mem_take he, hmem⟩
  cases kind with
  | printf => exact List.Subset.refl _
  | println => exact htake
  | print => exact htake

mutual

/-- The walks agree on a tidy statement if they do on the names in it where it starts. The induction
follows the lowering; what it carries is agreement on names only, since neither the number of the
scopes nor what else they declare is the same in both tables. -/
theorem stmt_agree (place : Place) (expected : Option ValueType) : (s : Stmt) →
    ∀ {shared : Bool} {names : List String} {table after : SymbolTable} {out : List Target.Stmt}
      (c : Inspection), s.tidy = true → s.mentions ⊆ names → Agree place names table c.symbols →
      Ready shared names table c.symbols s →
      (Lowering.stmt place shared s).outcome table = (.ok out, after) →
        Lowering.meanings place shared table s = c.meanings place expected s
  | .declare decl, shared, names, table, after, out, c, htidy, hsub, hagree, hready, h => by
      have hafter := (declare_move expected h c).agree hagree hready
      rw [Stmt.mentions, List.cons_subset] at hsub
      rw [Lowering.meanings, Inspection.meanings, Lowering.behind_eq h, hafter.meaning _ hsub.1,
        exprs_agree hagree hsub.2]
  | .expression e, shared, names, table, after, out, c, htidy, hsub, hagree, hready, h => by
      rw [Stmt.mentions] at hsub
      rw [Lowering.meanings, Inspection.meanings]
      exact expr_agree hagree hsub
  | .block body, shared, names, table, after, out, c, htidy, hsub, hagree, hready, h => by
      rw [Stmt.mentions] at hsub
      rw [Stmt.tidy] at htidy
      rw [Lowering.meanings, Inspection.meanings]
      cases shared with
      | true =>
          rw [Lowering.stmt, if_pos rfl] at h
          have hlevel : Level names table c.enter.symbols := fun name _ => by
            rw [SymbolTable.bare, hready rfl]
            rfl
          exact stmts_agree place expected body c.enter htidy hsub hagree.enterOther hlevel h
      | false =>
          obtain ⟨inner, hinner, -⟩ := Lowering.exists_of_block h
          exact stmts_agree place expected body c.enter htidy hsub hagree.enter.enterOther
            .enter hinner
  | .ifElse e thenBranch elseBranch, shared, names, table, after, out, c, htidy, hsub, hagree,
      hready, h => by
      obtain ⟨condition, lines, inner, rest, -, hbody, hrest, -⟩ := Lowering.exists_of_ifElse h
      obtain ⟨⟨hdeclared, hthenTidy⟩, helseTidy⟩ := Stmt.tidy_ifElse htidy
      obtain ⟨he, hthenSub, helseSub⟩ := Stmt.mentions_ifElse hsub
      have htested := c.condition_bare .ifElse e
      have hthen := stmt_agree place expected thenBranch (c.condition .ifElse e) hthenTidy hthenSub
        (hagree.enter.behindOther htested) (.body hdeclared) hbody
      obtain ⟨hleave, hchecked⟩ := branch_bare expected hdeclared hbody (c.condition .ifElse e)
      have helse := else_agree place expected elseBranch _ helseTidy helseSub
        (hagree.behind hleave (hchecked.trans htested)) hrest
      rw [Lowering.meanings, Inspection.meanings, Lowering.behind_inScope hbody,
        expr_agree hagree he, hthen, helse]
  | .whileLoop e body, shared, names, table, after, out, c, htidy, hsub, hagree, hready, h => by
      obtain ⟨condition, lines, inner, -, hbody, -, -⟩ := Lowering.exists_of_whileLoop h
      rw [Stmt.mentions, List.append_subset] at hsub
      simp only [Stmt.tidy, Bool.and_eq_true, List.isEmpty_iff] at htidy
      have hrest := stmt_agree place expected body (c.condition .whileLoop e) htidy.2 hsub.2
        (hagree.enter.behindOther (c.condition_bare .whileLoop e)) (.body htidy.1) hbody
      rw [Lowering.meanings, Inspection.meanings, expr_agree hagree hsub.1, hrest]
  | .doWhile body e, shared, names, table, after, out, c, htidy, hsub, hagree, hready, h => by
      obtain ⟨lines, condition, inner, hbody, -, -, -⟩ := Lowering.exists_of_doWhile h
      rw [Stmt.mentions, List.append_subset] at hsub
      simp only [Stmt.tidy, Bool.and_eq_true, List.isEmpty_iff] at htidy
      have hlines := stmt_agree place expected body c htidy.1.2 hsub.1 hagree.enter
        (.body htidy.1.1) hbody
      have htest := (within_agree hagree hbody htidy.2 hsub.2).behindOther
        (branch_bare expected htidy.1.1 hbody c).2
      rw [Lowering.meanings, Inspection.meanings, Lowering.behind_eq hbody, hlines,
        expr_agree htest (List.Subset.refl _)]
  | .forLoop none e update body, shared, names, table, after, out, c, htidy, hsub, hagree, hready,
      h => by
      obtain ⟨condition, lines, last, inner, -, hbody, -, -, -⟩ := Lowering.exists_of_bareFor h
      rw [Stmt.mentions, List.append_subset, List.append_subset] at hsub
      simp only [Stmt.tidy, Bool.and_eq_true, List.isEmpty_iff] at htidy
      have hentered : Agree place names table.enter c.enter.symbols := hagree.enter.enterOther
      have hlines := stmt_agree place expected body _ htidy.1.2 hsub.2
        (hentered.enter.behindOther (c.enter.header_bare e update)) (.body htidy.1.1) hbody
      rw [Lowering.meanings, Inspection.meanings, Lowering.behind_eq hbody]
      exact rounds_agree hentered hsub.1.1 hsub.1.2 htidy.2 hbody hlines
  | .forLoop (some init) e update body, shared, names, table, after, out, c, htidy, hsub, hagree,
      hready, h => by
      rw [Stmt.mentions, List.append_subset, List.append_subset, List.append_subset] at hsub
      obtain ⟨⟨⟨hinitSub, he⟩, hupdate⟩, hbodySub⟩ := hsub
      have hentered : Agree place names table.enter c.enter.symbols := hagree.enter.enterOther
      rw [Lowering.meanings, Inspection.meanings]
      cases hdetect : RangeLoop.detect? init e update body with
      | none =>
          simp only [Stmt.tidy, Bool.and_eq_true, List.isEmpty_iff, hdetect] at htidy
          obtain ⟨⟨⟨hdeclared, hbodyTidy⟩, hinitTidy⟩, hapart⟩ := htidy
          obtain ⟨first, begun, condition, lines, last, inner, hfirst, -, hbody, -, -, -⟩ :=
            Lowering.exists_of_for hdetect h
          have hinit := stmt_agree place expected init c.enter hinitTidy hinitSub hentered
            (.of_level .enter) hfirst
          have hbegun := (stmt_move expected hinitTidy hfirst c.enter).agree hentered .enter
          have hlines := stmt_agree place expected body _ hbodyTidy hbodySub
            (hbegun.enter.behindOther (Inspection.header_bare _ e update)) (.body hdeclared) hbody
          simp only [Lowering.behind_eq hfirst, Lowering.behind_eq hbody]
          rw [hinit, rounds_agree hbegun he hupdate hapart hbody hlines]
      | some loop =>
          simp only [Stmt.tidy, Bool.and_eq_true, List.isEmpty_iff, hdetect] at htidy
          obtain ⟨⟨⟨hdeclared, hbodyTidy⟩, hinitTidy⟩, hloop⟩ := htidy
          obtain ⟨start, bound, lines, inner, hbounds, hbody, -, -⟩ :=
            Lowering.exists_of_range hdetect h
          obtain ⟨hcounted, hheader⟩ :=
            counter_agree expected hdetect hloop hentered .enter hinitSub he
          have hlines := stmt_agree place expected body _ hbodyTidy hbodySub
            (hcounted.enter.behindOther (Inspection.header_bare _ e update)) (.body hdeclared) hbody
          simp only [Lowering.behind_eq hbounds]
          rw [hheader, hlines]
  | .switch scrutinee cases default, shared, names, table, after, out, c, htidy, hsub, hagree,
      hready, h => by
      obtain ⟨subject, labels, between, rest, hsubject, hlabels, hdefault, -⟩ :=
        Lowering.exists_of_switch h
      obtain ⟨hcasesTidy, hdefaultTidy⟩ := Stmt.tidy_switch htidy
      obtain ⟨he, hcasesSub⟩ := Stmt.mentions_switch hsub
      have hbare := Inspection.expr_bare scrutinee c
      have hentered : Agree place names table (c.expr scrutinee).after.enter.symbols :=
        (hagree.behindOther hbare).enterOther
      obtain ⟨hlist, hbehind, hlevel⟩ := labels_agree place expected cases
        (c.exprMeanings place scrutinee) [] _ hcasesTidy hcasesSub hentered .enter hlabels
      have hrest := default_agree place expected default _ hdefaultTidy hbehind hlevel hdefault
      rw [Lowering.meanings, Inspection.meanings]
      simp only [Lowering.behind_bind hsubject, Lowering.behind_eq hlabels]
      rw [expr_agree hagree he, hlist, hrest]
  | .tryCatch body catches cleanup, shared, names, table, after, out, c, htidy, hsub, hagree,
      hready, h => by
      obtain ⟨first, inner, caught, between, last, hfirst, hcaught, hlast, -⟩ :=
        Lowering.exists_of_tryCatch h
      obtain ⟨hbodyTidy, hcatchesTidy, hcleanupTidy⟩ := Stmt.tidy_tryCatch htidy
      obtain ⟨hbodySub, hcatchesSub, hcleanupSub⟩ := Stmt.mentions_tryCatch hsub
      have hbody := stmts_agree place expected body c.enter hbodyTidy hbodySub
        hagree.enter.enterOther .enter hfirst
      have hleave := (Lowering.stmts_refers place body hfirst).scope.leave
      have htried := (Inspection.stmts_extends expected body c.enter).leave
      have hhandlers := handlers_agree place expected catches (c.enter.stmts expected body).leave
        hcatchesTidy hcatchesSub (hagree.behind hleave htried) hcaught
      have hbetween := (Lowering.handlers_refers place catches hcaught).scope.bare_eq.trans hleave
      have hchecked := (Inspection.catches_bare expected catches
        (c.enter.stmts expected body).leave).trans htried
      have hcleanup := cleanup_agree place expected cleanup _ hcleanupTidy hcleanupSub
        (hagree.behind hbetween hchecked) hlast
      rw [Lowering.meanings, Inspection.meanings]
      simp only [Lowering.behind_inScope hfirst,
        Lowering.behind_bind (Lowering.outcome_inScope hfirst), Lowering.behind_eq hcaught]
      rw [hbody, hhandlers, hcleanup]
  | .print kind args position, shared, names, table, after, out, c, htidy, hsub, hagree, hready,
      h => by
      rw [Stmt.mentions] at hsub
      rw [Lowering.meanings, Inspection.meanings]
      exact exprs_agree hagree (List.Subset.trans (kind.namesIn_shown_subset args) hsub)
  | .returns value position, shared, names, table, after, out, c, htidy, hsub, hagree, hready,
      h => by
      rw [Stmt.mentions] at hsub
      rw [Lowering.meanings, Inspection.meanings]
      exact exprs_agree hagree hsub
  | .breaks, shared, names, table, after, out, c, htidy, hsub, hagree, hready, h
  | .continues, shared, names, table, after, out, c, htidy, hsub, hagree, hready, h
  | .empty, shared, names, table, after, out, c, htidy, hsub, hagree, hready, h => by
      rw [Lowering.meanings, Inspection.meanings]

theorem stmts_agree (place : Place) (expected : Option ValueType) : (body : List Stmt) →
    ∀ {names : List String} {table after : SymbolTable} {out : List Target.Stmt}
      (c : Inspection), allTidy body = true → allMentions body ⊆ names →
      Agree place names table c.symbols → Level names table c.symbols →
      (Lowering.stmts place body).outcome table = (.ok out, after) →
        Lowering.bodyMeanings place table body = c.bodyMeanings place expected body
  | [], names, table, after, out, c, htidy, hsub, hagree, hlevel, h => by
      rw [Lowering.bodyMeanings, Inspection.bodyMeanings]
  | first :: rest, names, table, after, out, c, htidy, hsub, hagree, hlevel, h => by
      obtain ⟨lines, more, between, hlines, hmore, -⟩ := Lowering.exists_of_cons h
      rw [allMentions, List.append_subset] at hsub
      rw [allTidy, Bool.and_eq_true] at htidy
      have hfirst := stmt_agree place expected first c htidy.1 hsub.1 hagree (.of_level hlevel)
        hlines
      have hmove := stmt_move expected htidy.1 hlines c
      have hrest := stmts_agree place expected rest (c.stmt expected first) htidy.2 hsub.2
        (hmove.agree hagree hlevel) (hmove.level hlevel) hmore
      rw [Lowering.bodyMeanings, Inspection.bodyMeanings, Lowering.behind_eq hlines, hfirst, hrest]

theorem else_agree (place : Place) (expected : Option ValueType) : (branch : Option Stmt) →
    ∀ {names : List String} {table after : SymbolTable} {out : Target.Alternative}
      (c : Inspection),
      (∀ s, branch = some s → s.declared = [] ∧ s.tidy = true) →
      (∀ s, branch = some s → s.mentions ⊆ names) → Agree place names table c.symbols →
      (Lowering.alternative place branch).outcome table = (.ok out, after) →
        Lowering.elseMeanings place table branch = c.elseMeanings place expected branch
  | none, names, table, after, out, c, htidy, hsub, hagree, h => by
      rw [Lowering.elseMeanings, Inspection.elseMeanings]
  | some branch, names, table, after, out, c, htidy, hsub, hagree, h => by
      obtain ⟨hdeclared, hbranchTidy⟩ := htidy branch rfl
      have hbranch (shared : Bool) {start inner : SymbolTable} {lines : List Target.Stmt}
          (hstart : Agree place names start c.symbols)
          (hready : Ready shared names start c.symbols branch)
          (hbody : (Lowering.stmt place shared branch).outcome start = (.ok lines, inner)) :=
        stmt_agree place expected branch c hbranchTidy (hsub branch rfl) hstart hready hbody
      rw [Inspection.elseMeanings]
      cases branch with
      | ifElse e thenBranch elseBranch =>
          obtain ⟨condition, body, rest, hstmt, -⟩ := Lowering.exists_of_elseIf h
          rw [Lowering.elseMeanings, ← hbranch false hagree True.intro hstmt, Lowering.meanings]
      | _ =>
          obtain ⟨body, inner, hbody, -, -⟩ := Lowering.exists_of_otherwise (by nofun) h
          rw [Lowering.elseMeanings]
          · exact hbranch true hagree.enter (.body hdeclared) hbody
          · nofun

theorem case_agree (place : Place) (expected : Option ValueType) : (body : List Stmt) →
    ∀ {names : List String} {table after : SymbolTable} {out : List Target.Stmt}
      (c : Inspection), labelTidy body = true → allMentions body ⊆ names →
      Agree place names table c.symbols → Level names table c.symbols →
      (Lowering.caseBody place body).outcome table = (.ok out, after) →
        Lowering.caseMeanings place table body = c.caseMeanings place expected body
  | [], names, table, after, out, c, htidy, hsub, hagree, hlevel, h => by
      rw [Lowering.caseMeanings, Inspection.caseMeanings]
  | first :: rest, names, table, after, out, c, htidy, hsub, hagree, hlevel, h => by
      rw [allMentions, List.append_subset] at hsub
      have hfirst (hfirstTidy : first.tidy = true) {lines : List Target.Stmt}
          {between : SymbolTable}
          (hlines : (Lowering.stmt place false first).outcome table = (.ok lines, between)) :=
        stmt_agree place expected first c hfirstTidy hsub.1 hagree (.of_level hlevel) hlines
      have hrest (hrestTidy : labelTidy rest = true) {between : SymbolTable}
          {more : List Target.Stmt} (hmove : Move table c.symbols between
            (c.stmt expected first).symbols)
          (hmore : (Lowering.caseBody place rest).outcome between = (.ok more, after)) :=
        case_agree place expected rest (c.stmt expected first) hrestTidy hsub.2
          (hmove.agree hagree hlevel) (hmove.level hlevel) hmore
      by_cases hbreak : first = .breaks
      · rw [hbreak, Lowering.caseMeanings, Inspection.caseMeanings]
      · obtain ⟨lines, more, between, hlines, hmore, -⟩ := Lowering.exists_of_label hbreak h
        rw [labelTidy, Bool.and_eq_true] at htidy
        · have hmove := stmt_move expected htidy.1 hlines c
          rw [Lowering.caseMeanings, Inspection.caseMeanings, Lowering.behind_eq hlines,
            hfirst htidy.1 hlines, hrest htidy.2 hmove hmore]
          · exact hbreak
          · exact hbreak
        · exact hbreak

/-- The names `later` mean the same behind the labels. -/
theorem labels_agree (place : Place) (expected : Option ValueType) :
    (cases : List (SwitchCase Stmt)) → ∀ (subjects tests : List Meaning)
      {later names : List String} {table after : SymbolTable} {subject : Target.Expr}
      {pending : Option Target.Expr} {out : List (Target.Expr × List Target.Stmt)}
      (c : Inspection),
      casesTidy later cases = true → caseMentions cases ++ later ⊆ names →
      Agree place names table c.symbols → Level names table.enter c.symbols →
      (Lowering.groups place subject pending cases).outcome table = (.ok out, after) →
        Lowering.labelMeanings place subjects tests table cases =
            c.labelMeanings place expected subjects tests cases ∧
          Agree place later after (c.cases expected cases).symbols ∧
          Level later after.enter (c.cases expected cases).symbols
  | [], subjects, tests, later, names, table, after, subject, pending, out, c, htidy, hsub, hagree,
      hlevel, h => by
      rw [Lowering.groups] at h
      cases h
      rw [caseMentions, List.nil_append] at hsub
      rw [Lowering.labelMeanings, Inspection.labelMeanings, Inspection.cases]
      exact ⟨rfl, hagree.mono hsub, hlevel.mono hsub⟩
  | ⟨label, []⟩ :: rest, subjects, tests, later, names, table, after, subject, pending, out, c,
      htidy, hsub, hagree, hlevel, h => by
      obtain ⟨test, -, hrest⟩ := Lowering.exists_of_emptyLabel h
      rw [caseMentions, allMentions, List.append_nil, List.append_assoc, List.append_subset] at hsub
      rw [casesTidy, Bool.and_eq_true] at htidy
      have hbare := Inspection.expr_bare label c
      have hlevel' : Level names table.enter (c.expr label).after.symbols := fun name hname => by
        rw [hbare]
        exact hlevel name hname
      have hmore := labels_agree place expected rest subjects
        (tests ++ (subjects ++ c.exprMeanings place label)) (c.expr label).after htidy.2 hsub.2
        (hagree.behindOther hbare) hlevel' hrest
      rw [Lowering.labelMeanings, Inspection.labelMeanings, Inspection.cases,
        expr_agree hagree hsub.1]
      simp only [Inspection.stmts]
      exact hmore
  | ⟨label, first :: body⟩ :: rest, subjects, tests, later, names, table, after, subject, pending,
      out, c, htidy, hsub, hagree, hlevel, h => by
      obtain ⟨test, lines, inner, more, -, hlines, hrest, -⟩ := Lowering.exists_of_group h
      rw [caseMentions, List.append_assoc, List.append_assoc, List.append_subset,
        List.append_subset] at hsub
      obtain ⟨hlabelSub, hbodySub, hrestSub⟩ := hsub
      simp only [casesTidy, Bool.and_eq_true] at htidy
      obtain ⟨⟨hbodyTidy, hapart⟩, hrestTidy⟩ := htidy
      have hbare := Inspection.expr_bare label c
      have hlevel' : Level names table.enter (c.expr label).after.symbols := fun name hname => by
        rw [hbare]
        exact hlevel name hname
      have hbody := case_agree place expected (first :: body) (c.expr label).after hbodyTidy
        hbodySub (hagree.enter.behindOther hbare) hlevel' hlines
      -- What the body declares stays in scope for the checker, but nothing behind it mentions it.
      have hchecked := Inspection.stmts_extends expected (first :: body) (c.expr label).after
      have hleave := (Lowering.case_refers place (first :: body) hlines).scope.leave
      have hfresh : ∀ name ∈ caseMentions rest ++ later,
          name ∉ (first :: body).flatMap Stmt.declared :=
        fun _ hname => not_mem_of_apart hapart hname
      have hmore := labels_agree place expected rest subjects [] _ hrestTidy (List.Subset.refl _)
        (((hagree.mono hrestSub).behind hleave hbare).extendOther hchecked hfresh)
        (fun name hname => (hlevel' name (hrestSub hname)).trans
          (hchecked.lookup (hfresh name hname)).symm) hrest
      rw [Lowering.labelMeanings, Inspection.labelMeanings, Inspection.cases,
        expr_agree hagree hlabelSub, Lowering.behind_inScope hlines]
      simp only [List.isEmpty_cons, Bool.false_eq_true, if_false]
      rw [hbody, hmore.1]
      exact ⟨rfl, hmore.2⟩

theorem default_agree (place : Place) (expected : Option ValueType) :
    (default : Option (List Stmt)) →
    ∀ {table after : SymbolTable} {out : Option (List Target.Stmt)} (c : Inspection),
      (∀ body, default = some body → labelTidy body = true) →
      Agree place (Stmt.defaultMentions default) table c.symbols →
      Level (Stmt.defaultMentions default) table.enter c.symbols →
      (Lowering.defaultBody place default).outcome table = (.ok out, after) →
        Lowering.defaultMeanings place table default = c.defaultMeanings place expected default
  | none, table, after, out, c, htidy, hagree, hlevel, h => by
      rw [Lowering.defaultMeanings, Inspection.defaultMeanings]
  | some body, table, after, out, c, htidy, hagree, hlevel, h => by
      obtain ⟨lines, inner, hlines, -, -⟩ := Lowering.exists_of_default h
      rw [Lowering.defaultMeanings, Inspection.defaultMeanings]
      exact case_agree place expected body c (htidy body rfl) (List.Subset.refl _) hagree.enter
        hlevel hlines

theorem handlers_agree (place : Place) (expected : Option ValueType) :
    (catches : List (CatchClause Stmt)) →
    ∀ {names : List String} {table after : SymbolTable} {out : List (Target.Handler Target.Stmt)}
      (c : Inspection), catchesTidy catches = true → catchMentions catches ⊆ names →
      Agree place names table c.symbols →
      (Lowering.handlers place catches).outcome table = (.ok out, after) →
        Lowering.handlerMeanings place table catches = c.catchMeanings place expected catches
  | [], names, table, after, out, c, htidy, hsub, hagree, h => by
      rw [Lowering.handlerMeanings, Inspection.catchMeanings]
  | ⟨exception, name, body, position⟩ :: rest, names, table, after, out, c, htidy, hsub, hagree,
      h => by
      obtain ⟨lines, inner, more, hlines, hmore, -⟩ := Lowering.exists_of_handler h
      rw [catchMentions, List.append_subset] at hsub
      rw [catchesTidy, Bool.and_eq_true] at htidy
      have hdeclare := Lowering.outcome_declare name (.ofTypeName exception) position table.enter
      have hinner := (Lowering.outcome_declare_bind name (.ofTypeName exception) position
        (fun _ => Lowering.stmts place body) table.enter).trans hlines
      have hbound := c.enter.symbols_declare name ⟨.ofTypeName exception, position, true, false⟩
      have hmove : Move table.enter c.enter.symbols
          (table.enter.bring name (Lowering.declared (.ofTypeName exception) position))
          (c.enter.bound exception name position).symbols :=
        .declare _ _ rfl (congrArg SymbolTable.bare hbound)
      have hbody := stmts_agree place expected body (c.enter.bound exception name position) htidy.1
        hsub.1 (hmove.agree hagree.enter.enterOther .enter) (hmove.level .enter) hlines
      have hleave : inner.leave.bare = table.bare :=
        ((Extends.bring table.enter ..).trans (Lowering.stmts_refers place body hlines).scope).leave
      have hchecked : ((c.enter.bound exception name position).stmts expected
          body).leave.symbols.bare = c.symbols.bare :=
        ((Extends.bring c.enter.symbols ..).behind (congrArg SymbolTable.bare hbound) |>.trans
          (Inspection.stmts_extends expected body _)).leave
      have hrest := handlers_agree place expected rest _ htidy.2 hsub.2
        (hagree.behind hleave hchecked) hmore
      rw [Lowering.handlerMeanings, Inspection.catchMeanings]
      simp only [Lowering.behind_eq hdeclare, Lowering.behind_inScope hinner]
      rw [hbody, hrest]

theorem cleanup_agree (place : Place) (expected : Option ValueType) :
    (cleanup : Option (List Stmt)) →
    ∀ {names : List String} {table after : SymbolTable} {out : Option (List Target.Stmt)}
      (c : Inspection), (∀ body, cleanup = some body → allTidy body = true) →
      (∀ body, cleanup = some body → allMentions body ⊆ names) →
      Agree place names table c.symbols →
      (Lowering.cleanupBody place cleanup).outcome table = (.ok out, after) →
        Lowering.cleanupMeanings place table cleanup = c.cleanupMeanings place expected cleanup
  | none, names, table, after, out, c, htidy, hsub, hagree, h => by
      rw [Lowering.cleanupMeanings, Inspection.cleanupMeanings]
  | some body, names, table, after, out, c, htidy, hsub, hagree, h => by
      obtain ⟨lines, inner, hlines, -, -⟩ := Lowering.exists_of_cleanup h
      rw [Lowering.cleanupMeanings, Inspection.cleanupMeanings]
      exact stmts_agree place expected body c.enter (htidy body rfl) (hsub body rfl)
        hagree.enter.enterOther .enter hlines

end

section Programs

variable {place : Place} {table after : SymbolTable}

theorem method_agree {decl : Method} {out : Target.Stmt} {c : Inspection}
    (htidy : allTidy decl.body = true) (hbare : table.bare = c.symbols.bare)
    (hinside : place.Inside table.enter)
    (h : (Lowering.method place decl).outcome table = (.ok out, after)) :
    Lowering.methodMeanings place table decl = c.methodMeanings place decl := by
  obtain ⟨body, inner, hbody, -, -⟩ := Lowering.exists_of_method h
  have hentered : table.enter.bare = c.enter.symbols.bare := congrArg SymbolTable.enter hbare
  have hparams := (SymbolTable.bare_bringParams hentered decl.params).trans
    (congrArg SymbolTable.bare (Inspection.symbols_params decl.params c.enter)).symm
  have hmethod : Place.Inside { place with method := some (Lowering.kindOf decl) }
      (table.enter.bringParams decl.params) := fun cls hclass =>
    (Extends.bringParams table.enter decl.params).inside hinside cls hclass
  rw [Lowering.methodMeanings, Lowering.behind_eq (Lowering.outcome_declareParams ..),
    Inspection.methodMeanings]
  exact stmts_agree _ _ decl.body _ htidy (List.Subset.refl _)
    (.of_bare hparams hmethod _) (.of_bare hparams _) hbody

theorem fields_agree {members : List Member} {out : List Target.Stmt} {c : Inspection}
    (hbare : table.bare = c.symbols.bare)
    (h : (Lowering.fields place members).outcome table = (.ok out, after)) :
    Lowering.fieldMeanings place table members = c.fieldMeanings place members ∧
      after.bare = (c.fields members).symbols.bare := by
  induction members generalizing table out c with
  | nil =>
      cases h
      exact ⟨rfl, hbare⟩
  | cons member rest ih =>
      cases member with
      | field decl =>
          obtain ⟨source, more, hsource, hmore, -⟩ := Lowering.exists_of_field h
          have hdeclared : (table.bring decl.name (Lowering.declared (.ofTypeName decl.type)
              decl.position)).bare = (c.declaration decl true).symbols.bare := by
            rw [c.declaration_bare decl true false true, SymbolTable.bare_bring,
              SymbolTable.bare_bring, hbare]
            rfl
          obtain ⟨hrest, hafter⟩ := ih hdeclared hmore
          refine ⟨?_, hafter⟩
          rw [Lowering.fieldMeanings, Inspection.fieldMeanings, Lowering.behind_field hsource,
            hrest, place.meaning_of_bare hdeclared, place.meanings_of_bare hbare,
            Inspection.exprsMeanings_eq]
      | method decl => exact ih hbare h
      | nested decl => exact ih hbare h

end Programs

mutual

theorem class_agree : (decl : ClassDecl) →
    ∀ {table after : SymbolTable} {out : Target.Stmt} (c : Inspection),
      ClassDecl.tidy decl = true → table.bare = c.symbols.bare →
      (Lowering.classDecl decl).outcome table = (.ok out, after) →
        Lowering.classMeanings table decl = c.classMeanings decl
  | ⟨modifiers, name, members, position⟩, table, after, out, c, htidy, hbare, h => by
      obtain ⟨front, rest, between, inner, hfront, hrest, -, -⟩ := Lowering.exists_of_class h
      have hentered : table.enter.bare = c.enter.symbols.bare := congrArg SymbolTable.enter hbare
      obtain ⟨hfields, hbetween⟩ := fields_agree hentered hfront
      have hinside : Place.Inside ⟨some ⟨name, table.enter.depth - 1⟩, none⟩ between.enter := by
        refine (Lowering.fields_refers rfl hfront).scope.inside_enter fun cls hclass => ?_
        cases hclass
        exact Nat.lt_succ_self _
      rw [ClassDecl.tidy] at htidy
      have hmembers := members_agree _ members (c.enter.fields members) htidy hbetween hinside hrest
      rw [Lowering.classMeanings, Inspection.classMeanings]
      simp only [Lowering.behind_eq hfront]
      rw [hfields, hmembers, SymbolTable.depth_eq_of_bare hentered]

theorem members_agree (place : Place) : (members : List Member) →
    ∀ {table after : SymbolTable} {out : List Target.Stmt} (c : Inspection),
      membersTidy members = true → table.bare = c.symbols.bare → place.Inside table.enter →
      (Lowering.definitions place members).outcome table = (.ok out, after) →
        Lowering.memberMeanings place table members = c.memberMeanings place members
  | [], table, after, out, c, htidy, hbare, hinside, h => by
      rw [Lowering.memberMeanings, Inspection.memberMeanings]
  | .field decl :: rest, table, after, out, c, htidy, hbare, hinside, h => by
      rw [Lowering.definitions] at h
      rw [membersTidy] at htidy
      rw [Lowering.memberMeanings, Inspection.memberMeanings]
      exact members_agree place rest c htidy hbare hinside h
  | .method decl :: rest, table, after, out, c, htidy, hbare, hinside, h => by
      rw [Lowering.definitions] at h
      rw [membersTidy, Bool.and_eq_true] at htidy
      obtain ⟨line, more, between, hline, hmore, -⟩ := Lowering.exists_of_pair h
      have hscope := (Lowering.method_refers hline).scope
      have hrest := members_agree place rest (c.method decl) htidy.2
        ((hscope.bare_eq.trans hbare).trans (c.method_bare decl).symm)
        (hscope.inside_enter hinside) hmore
      rw [Lowering.memberMeanings, Inspection.memberMeanings, Lowering.behind_eq hline,
        method_agree htidy.1 hbare hinside hline, hrest]
  | .nested decl :: rest, table, after, out, c, htidy, hbare, hinside, h => by
      rw [Lowering.definitions] at h
      rw [membersTidy, Bool.and_eq_true] at htidy
      obtain ⟨line, more, between, hline, hmore, -⟩ := Lowering.exists_of_pair h
      have hscope := (Lowering.class_refers decl hline).scope
      have hrest := members_agree place rest (c.classDecl decl) htidy.2
        ((hscope.bare_eq.trans hbare).trans (Inspection.classDecl_bare decl c).symm)
        (hscope.inside_enter hinside) hmore
      rw [Lowering.memberMeanings, Inspection.memberMeanings, Lowering.behind_eq hline,
        class_agree decl c htidy.1 hbare hline, hrest]

end

theorem item_agree {i : Item} {table after : SymbolTable} {chunk : Target.Chunk} {c : Inspection}
    (htidy : i.tidy = true) (hbare : table.bare = c.symbols.bare)
    (h : (Lowering.item i).outcome table = (.ok chunk, after)) :
    Lowering.itemMeanings table i = c.itemMeanings i ∧ after.bare = (c.item i).symbols.bare := by
  cases i with
  | declaration decl =>
      obtain ⟨line, _, hline, hpure⟩ := Lowering.exists_of_bind h
      cases hpure
      have hafter := (Lowering.class_refers decl hline).scope.bare_eq
      exact ⟨class_agree decl c htidy hbare hline,
        (hafter.trans hbare).trans (Inspection.classDecl_bare decl c).symm⟩
  | statement s =>
      obtain ⟨lines, _, hlines, hpure⟩ := Lowering.exists_of_bind h
      cases hpure
      have hinside : Place.outside.Inside table := fun _ hclass => by cases hclass
      exact ⟨stmt_agree .outside none s c htidy (List.Subset.refl _) (.of_bare hbare hinside _)
        (.of_level (.of_bare hbare _)) hlines, (stmt_move none htidy hlines c).bare_eq hbare⟩

theorem items_agree {list : List Item} {table after : SymbolTable} {chunks : List Target.Chunk}
    {c : Inspection} (htidy : list.all Item.tidy = true) (hbare : table.bare = c.symbols.bare)
    (h : (Lowering.items list).outcome table = (.ok chunks, after)) :
    Lowering.itemsMeanings table list = c.itemsMeanings list := by
  induction list generalizing table chunks c with
  | nil => rfl
  | cons first rest ih =>
      rw [List.all_cons, Bool.and_eq_true] at htidy
      obtain ⟨chunk, more, between, hchunk, hmore, -⟩ := Lowering.exists_of_pair h
      obtain ⟨hfirst, hbetween⟩ := item_agree htidy.1 hbare hchunk
      rw [Lowering.itemsMeanings, Inspection.itemsMeanings, Lowering.behind_eq hchunk, hfirst,
        ih htidy.2 hbetween hmore]

namespace Program

/-- In a tidy program every name that reaches the emitted text has the declaration that it has for
the checker, and it is written as the checker's table at that place says. -/
theorem meanings_agree (program : Program) (m : Target.Module) (h : program.toModule = .ok m)
    (htidy : program.tidy = true) :
    program.loweredMeanings = program.checkedMeanings ∧
      m.references = program.checkedMeanings.map Meaning.reference := by
  obtain ⟨after, hitems⟩ := exists_of_toModule h
  have hagree : program.loweredMeanings = program.checkedMeanings := items_agree htidy rfl hitems
  exact ⟨hagree, hagree ▸ references_eq h⟩

/-- The field `x` is read in a `do` loop and in the header of a loop whose body has an `x`. -/
theorem meanings_agree_shadowed :
    ∃ program m, ofSource ("class A \x7b int x; void m() \x7b " ++
        "do \x7b int z = x; \x7d while (x < 3); " ++
        "for (int i = 0; i < x; i++) \x7b int x = i; \x7d \x7d \x7d") = .ok program ∧
      program.toModule = .ok m ∧ program.tidy = true ∧
      program.loweredMeanings = program.checkedMeanings ∧
      m.references = program.checkedMeanings.map Meaning.reference :=
  exists_module (fun program _ => program.tidy = true) (by decide +kernel)
    fun program m hmodule htidy => ⟨htidy, meanings_agree program m hmodule htidy⟩

/-- To the checker the condition of this loop reads the field, but the lowering takes it for the
variable of the body and does not write it as `self.x`. -/
theorem do_condition_reads_body :
    ∃ program m, ofSource ("class A \x7b int x; void m() \x7b " ++
        "do \x7b int x = 1; \x7d while (x < 3); \x7d \x7d") = .ok program ∧
      program.toModule = .ok m ∧ program.loweredMeanings ≠ program.checkedMeanings ∧
      m.references = [.name "x", .name "x", .name "x"] ∧
      program.checkedMeanings.map Meaning.reference =
        [.name "x", .name "x", .member "self" "x"] :=
  exists_module (fun program m => program.loweredMeanings ≠ program.checkedMeanings ∧
    m.references = [.name "x", .name "x", .name "x"] ∧
    program.checkedMeanings.map Meaning.reference = [.name "x", .name "x", .member "self" "x"])
    (by decide +kernel) fun _ _ _ h => h

end Program

end MiniJava
