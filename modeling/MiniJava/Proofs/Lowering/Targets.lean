import MiniJava.Proofs.Lowering.Words

/-!
# What emitted code assigns

The targets of emitted code are the names of the variables and attributes that it assigns, those
that loops and handlers bind among them. Every target comes from the source: it is assigned there,
or it is declared in the part of the source that reaches the emitted text.
-/

namespace MiniJava

namespace Target

mutual

def Stmt.targets : Stmt → List String
  | .assign target _ => [target.word]
  | .update target _ _ => [target.word]
  | .ifElse _ body alternative => allTargets body ++ alternative.targets
  | .whileLoop _ body => allTargets body
  | .forRange counter _ _ _ body => counter.word :: allTargets body
  | .tryExcept body handlers none => allTargets body ++ handlerTargets handlers
  | .tryExcept body handlers (some cleanup) =>
    allTargets body ++ handlerTargets handlers ++ allTargets cleanup
  | .function _ name _ _ => [name]
  | .classDef name _ => [name]
  | .expression _ | .print _ _ | .printFormatted _ _ | .returns _ | .breaks | .continues => []

def allTargets : List Stmt → List String
  | [] => []
  | first :: rest => first.targets ++ allTargets rest

def Alternative.targets : Alternative → List String
  | .nothing => []
  | .elseIf _ body alternative => allTargets body ++ alternative.targets
  | .otherwise body => allTargets body

def handlerTargets : List (Handler Stmt) → List String
  | [] => []
  | ⟨_, name, body⟩ :: rest => name :: allTargets body ++ handlerTargets rest

end

theorem allTargets_append (body rest : List Stmt) :
    allTargets (body ++ rest) = allTargets body ++ allTargets rest := by
  induction body with
  | nil => rfl
  | cons first body ih =>
      rw [List.cons_append, allTargets, allTargets, ih, List.append_assoc]

@[simp] theorem allTargets_single (s : Stmt) : allTargets [s] = s.targets := by
  rw [allTargets, allTargets, List.append_nil]

end Target

namespace Lowering

open Target (allTargets)

/-- Each of the words is one of the names, or a declaration among the mentions. -/
def Accounted (names : List String) (mentions : List Mention) (words : List String) : Prop :=
  ∀ word ∈ words, word ∈ names ∨ .declared word ∈ mentions

namespace Accounted

variable {names others : List String} {mentions more : List Mention} {words rest : List String}

theorem nil : Accounted names mentions [] := nofun

theorem append (h : Accounted names mentions words) (hrest : Accounted names mentions rest) :
    Accounted names mentions (words ++ rest) :=
  List.forall_mem_append.mpr ⟨h, hrest⟩

theorem cons {word : String} (hword : word ∈ names ∨ .declared word ∈ mentions)
    (h : Accounted names mentions words) : Accounted names mentions (word :: words) :=
  List.forall_mem_cons.mpr ⟨hword, h⟩

theorem mono (h : Accounted names mentions words) (hnames : names ⊆ others)
    (hmentions : mentions ⊆ more) : Accounted others more words :=
  fun word hword => (h word hword).imp (@hnames word) (@hmentions _)

end Accounted

section Simple

variable {place : Place} {table after : SymbolTable} {out : List Target.Stmt}

theorem effect_accounted {e : Expr} (h : (effect place e).outcome table = (.ok out, after)) :
    Accounted e.assigned [] (allTargets out) := by
  have htarget (target : String) (rest : List String) :
      Accounted (target :: rest) [] [(place.reference table target).word] := by
    rw [word_reference]
    exact .cons (.inl List.mem_cons_self) .nil
  unfold effect at h
  split at h
  · next target e position =>
      obtain ⟨source, -, hrest⟩ := (Reads.value place e).exists_of_bind h
      cases hrest
      exact htarget target e.assigned
  · cases h
  · next target op e position _ =>
      obtain ⟨targetType, -, hrest⟩ := (Reads.typeOf (.name target position)).exists_of_bind h
      obtain ⟨sourceType, -, hrest⟩ := (Reads.typeOf e).exists_of_bind hrest
      obtain ⟨source, -, hrest⟩ := (Reads.value place e).exists_of_bind hrest
      cases hrest
      exact htarget target e.assigned
  · next target op form position =>
      cases h
      exact htarget target []
  · obtain ⟨value, -, hpure⟩ := (Reads.value place e).exists_of_bind h
    cases hpure
    exact .nil

theorem effects_accounted {list : List Expr}
    (h : (effects place list).outcome table = (.ok out, after)) :
    Accounted (assignedIn list) [] (allTargets out) := by
  induction list generalizing out after with
  | nil =>
      cases h
      exact .nil
  | cons first rest ih =>
      obtain ⟨lines, hlines, hrest⟩ := (Reads.effect place first).exists_of_bind h
      obtain ⟨more, hmore, hpure⟩ := (Reads.effects place rest).exists_of_bind hrest
      cases hpure
      rw [Target.allTargets_append, assignedIn, List.flatMap_cons]
      have hfirst := effect_accounted hlines
      exact (hfirst.mono (List.subset_append_left _ _) (List.Subset.refl _)).append
        ((ih hmore).mono (List.subset_append_right _ _) (List.Subset.refl _))

theorem print_accounted {kind : PrintKind} {args : List Expr}
    (h : (print place kind args).outcome table = (.ok out, after)) : allTargets out = [] := by
  unfold print at h
  split at h
  · cases h
    rfl
  · next first rest =>
      obtain ⟨format, -, hrest⟩ := (Reads.format place first).exists_of_bind h
      obtain ⟨more, -, hpure⟩ := (Reads.values place rest).exists_of_bind hrest
      cases hpure
      rfl
  · next =>
      obtain ⟨values, -, hpure⟩ := (Reads.values place _).exists_of_bind h
      cases hpure
      rfl
  · next =>
      obtain ⟨values, -, hpure⟩ := (Reads.values place _).exists_of_bind h
      cases hpure
      rfl

end Simple

def groupTargets (labels : List (Target.Expr × List Target.Stmt)) : List String :=
  labels.flatMap fun label => allTargets label.2

theorem alternatives_targets (default : Option (List Target.Stmt))
    (labels : List (Target.Expr × List Target.Stmt)) :
    (alternatives default labels).targets =
      groupTargets labels ++ allTargets (default.getD []) := by
  induction labels with
  | nil => cases default <;> rfl
  | cons label rest ih =>
      rw [alternatives, Target.Alternative.targets, ih, groupTargets, groupTargets,
        List.flatMap_cons, List.append_assoc]

theorem chain_targets (default : Option (List Target.Stmt))
    (labels : List (Target.Expr × List Target.Stmt)) :
    allTargets (chain labels default) = groupTargets labels ++ allTargets (default.getD []) := by
  cases labels with
  | nil => rfl
  | cons label rest =>
      rw [chain, Target.allTargets_single, Target.Stmt.targets, alternatives_targets, groupTargets,
        groupTargets, List.flatMap_cons, List.append_assoc]

theorem tryExcept_targets (body : List Target.Stmt) (handlers : List (Target.Handler Target.Stmt))
    (cleanup : Option (List Target.Stmt)) :
    (Target.Stmt.tryExcept body handlers cleanup).targets =
      allTargets body ++ Target.handlerTargets handlers ++ allTargets (cleanup.getD []) := by
  cases cleanup with
  | none => exact (List.append_nil _).symm
  | some lines => rfl

/-- The counter of a loop is declared or assigned in front of the loop. -/
theorem counter_accounted {init : Stmt} {counter : RangeLoop.Counter}
    (h : RangeLoop.counter? init = some counter) :
    counter.name ∈ init.assigned ∨ counter.name ∈ init.declared := by
  obtain ⟨decl, rfl, -, -, heq⟩ | ⟨rfl, -⟩ := RangeLoop.counter?_cases h
  · rw [heq]
    exact .inr List.mem_cons_self
  · exact .inl List.mem_cons_self

def elseAssigned (branch : Option Stmt) : List String := branch.elim [] Stmt.assigned

def partAssigned (part : Option (List Stmt)) : List String := part.elim [] allAssigned

theorem assigned_ifElse (e : Expr) (thenBranch : Stmt) (elseBranch : Option Stmt) :
    (Stmt.ifElse e thenBranch elseBranch).assigned =
      e.assigned ++ thenBranch.assigned ++ elseAssigned elseBranch := by
  cases elseBranch with
  | none => exact (List.append_nil _).symm
  | some branch => rfl

theorem assigned_switch (scrutinee : Expr) (cases : List (SwitchCase Stmt))
    (default : Option (List Stmt)) : (Stmt.switch scrutinee cases default).assigned =
      scrutinee.assigned ++ allCaseAssigned cases ++ partAssigned default := by
  cases default with
  | none => exact (List.append_nil _).symm
  | some body => rfl

theorem assigned_tryCatch (body : List Stmt) (catches : List (CatchClause Stmt))
    (cleanup : Option (List Stmt)) : (Stmt.tryCatch body catches cleanup).assigned =
      allAssigned body ++ allCatchAssigned catches ++ partAssigned cleanup := by
  cases cleanup with
  | none => exact (List.append_nil _).symm
  | some last => rfl

mutual

/-- What the emitted code of a statement assigns, the statement assigns or declares. -/
theorem stmt_accounted (place : Place) (shared : Bool) : (s : Stmt) →
    ∀ {table after : SymbolTable} {out : List Target.Stmt},
      (stmt place shared s).outcome table = (.ok out, after) →
        Accounted s.assigned s.mentioned (allTargets out)
  | .declare decl, table, after, out, h => by
      obtain ⟨source, -, -, rfl⟩ := exists_of_declare h
      rw [Target.allTargets_single, Target.Stmt.targets, word_reference]
      exact .cons (.inr List.mem_cons_self) .nil
  | .expression e, table, after, out, h => by
      rw [stmt] at h
      exact (effect_accounted h).mono (List.Subset.refl _) (List.nil_subset _)
  | .block body, table, after, out, h => by
      cases shared with
      | true =>
          rw [stmt, if_pos rfl] at h
          exact stmts_accounted place body h
      | false =>
          obtain ⟨inner, hinner, rfl⟩ := exists_of_block h
          exact stmts_accounted place body hinner
  | .ifElse e thenBranch elseBranch, table, after, out, h => by
      obtain ⟨condition, body, inner, rest, -, hbody, hrest, rfl⟩ := exists_of_ifElse h
      have hthen := stmt_accounted place true thenBranch hbody
      have helse := else_accounted place elseBranch hrest
      rw [assigned_ifElse, mentioned_ifElse, Target.allTargets_single, Target.Stmt.targets]
      exact (hthen.mono (by simp) (by simp)).append (helse.mono (by simp) (by simp))
  | .whileLoop e body, table, after, out, h => by
      obtain ⟨condition, lines, inner, -, hbody, rfl, rfl⟩ := exists_of_whileLoop h
      have hlines := stmt_accounted place true body hbody
      rw [Target.allTargets_single]
      exact hlines.mono (List.subset_append_right _ _) (List.subset_append_right _ _)
  | .doWhile body e, table, after, out, h => by
      obtain ⟨lines, condition, inner, hbody, -, rfl, rfl⟩ := exists_of_doWhile h
      have hlines := stmt_accounted place true body hbody
      have hexit : allTargets [exitUnless condition] = [] := rfl
      rw [Target.allTargets_single, Target.Stmt.targets, Target.allTargets_append, hexit,
        List.append_nil]
      exact hlines.mono (List.subset_append_right _ _) (List.subset_append_left _ _)
  | .forLoop none e update body, table, after, out, h => by
      obtain ⟨condition, lines, last, inner, -, hbody, hlast, rfl, rfl⟩ := exists_of_bareFor h
      have hlines := stmt_accounted place true body hbody
      have hupdate := effects_accounted hlast
      rw [Target.allTargets_single, Target.Stmt.targets, Target.allTargets_append, Stmt.assigned,
        Stmt.mentioned]
      exact (hlines.mono (by simp) (by simp)).append (hupdate.mono (by simp) (by simp))
  | .forLoop (some init) e update body, table, after, out, h => by
      rw [Stmt.assigned, Stmt.mentioned]
      cases hdetect : RangeLoop.detect? init e update body with
      | none =>
          obtain ⟨first, begun, condition, lines, last, inner, hfirst, -, hbody, hlast, rfl, rfl⟩ :=
            exists_of_for hdetect h
          have hinit := stmt_accounted place false init hfirst
          have hlines := stmt_accounted place true body hbody
          have hupdate := effects_accounted hlast
          rw [Target.allTargets_append, Target.allTargets_single, Target.Stmt.targets,
            Target.allTargets_append]
          exact (hinit.mono (by simp) (by simp)).append
            ((hlines.mono (by simp +contextual [List.subset_def])
                (by simp +contextual [List.subset_def])).append
              (hupdate.mono (by simp +contextual [List.subset_def]) (by simp)))
      | some loop =>
          obtain ⟨start, bound, lines, inner, -, hbody, rfl, rfl⟩ := exists_of_range hdetect h
          obtain ⟨hcounter, -⟩ := RangeLoop.exists_of_detect hdetect
          have hlines := stmt_accounted place true body hbody
          rw [Target.allTargets_single, Target.Stmt.targets, word_reference]
          refine .cons ?_ (hlines.mono (by simp +contextual [List.subset_def])
            (by simp +contextual [List.subset_def]))
          refine (counter_accounted hcounter).imp (fun hassigned => ?_) (fun hdeclared => ?_)
          · simp [show loop.counter ∈ init.assigned from hassigned]
          · simp [Mention.declared, show loop.counter ∈ init.declared from hdeclared]
  | .switch scrutinee cases default, table, after, out, h => by
      obtain ⟨subject, labels, between, rest, -, hlabels, hdefault, rfl⟩ := exists_of_switch h
      have hgroups := groups_accounted place cases none scrutinee.mentioned [] hlabels
      have hrest := default_accounted place default hdefault
      rw [assigned_switch, mentioned_switch, chain_targets]
      exact (hgroups.mono (by simp) (by simp)).append (hrest.mono (by simp) (by simp))
  | .tryCatch body catches cleanup, table, after, out, h => by
      obtain ⟨first, inner, caught, between, last, hfirst, hcaught, hlast, rfl⟩ :=
        exists_of_tryCatch h
      have hbody := stmts_accounted place body hfirst
      have hhandlers := handlers_accounted place catches hcaught
      have hcleanup := cleanup_accounted place cleanup hlast
      rw [assigned_tryCatch, mentioned_tryCatch, Target.allTargets_single, tryExcept_targets]
      exact ((hbody.mono (by simp) (by simp)).append (hhandlers.mono (by simp) (by simp))).append
        (hcleanup.mono (by simp) (by simp))
  | .print kind args position, table, after, out, h => by
      rw [stmt] at h
      rw [print_accounted h]
      exact .nil
  | .returns none position, table, after, out, h => by
      rw [stmt] at h
      cases h
      exact .nil
  | .returns (some e) position, table, after, out, h => by
      rw [stmt] at h
      obtain ⟨value, -, hpure⟩ := (Reads.value place e).exists_of_bind h
      cases hpure
      exact .nil
  | .breaks, table, after, out, h | .continues, table, after, out, h => by
      rw [stmt] at h
      cases h
      exact .nil
  | .empty, table, after, out, h => by
      rw [stmt] at h
      cases h
      exact .nil

theorem stmts_accounted (place : Place) : (body : List Stmt) →
    ∀ {table after : SymbolTable} {out : List Target.Stmt},
      (stmts place body).outcome table = (.ok out, after) →
        Accounted (allAssigned body) (bodyMentioned body) (allTargets out)
  | [], table, after, out, h => by
      rw [stmts] at h
      cases h
      exact .nil
  | first :: rest, table, after, out, h => by
      obtain ⟨lines, more, between, hlines, hmore, rfl⟩ := exists_of_cons h
      have hfirst := stmt_accounted place false first hlines
      have hrest := stmts_accounted place rest hmore
      rw [Target.allTargets_append, allAssigned, bodyMentioned]
      exact (hfirst.mono (by simp) (by simp)).append (hrest.mono (by simp) (by simp))

theorem else_accounted (place : Place) : (branch : Option Stmt) →
    ∀ {table after : SymbolTable} {out : Target.Alternative},
      (alternative place branch).outcome table = (.ok out, after) →
        Accounted (elseAssigned branch) (elseMentioned branch) out.targets
  | none, table, after, out, h => by
      rw [alternative] at h
      cases h
      exact .nil
  | some branch, table, after, out, h => by
      have hbranch {lines : List Target.Stmt} {inner : SymbolTable}
          (hbody : (stmt place true branch).outcome table.enter = (.ok lines, inner)) :=
        stmt_accounted place true branch hbody
      cases branch with
      | ifElse e thenBranch elseBranch =>
          obtain ⟨condition, body, rest, hstmt, rfl⟩ := exists_of_elseIf h
          obtain ⟨_, _, inner, _, -, hbody, hrest, hout⟩ := exists_of_ifElse hstmt
          cases hout
          have hthen := stmt_accounted place true thenBranch hbody
          have helse := else_accounted place elseBranch hrest
          rw [elseAssigned, elseMentioned, Option.elim_some, Option.elim_some, assigned_ifElse,
            mentioned_ifElse, Target.Alternative.targets]
          exact (hthen.mono (by simp) (by simp)).append (helse.mono (by simp) (by simp))
      | _ =>
          obtain ⟨body, inner, hbody, rfl, rfl⟩ := exists_of_otherwise (by nofun) h
          exact hbranch hbody

theorem case_accounted (place : Place) : (body : List Stmt) →
    ∀ {table after : SymbolTable} {out : List Target.Stmt},
      (caseBody place body).outcome table = (.ok out, after) →
        Accounted (allAssigned body) (caseMentioned body) (allTargets out)
  | [], table, after, out, h => by
      rw [caseBody] at h
      cases h
      exact .nil
  | first :: rest, table, after, out, h => by
      have hfirst {lines : List Target.Stmt} {between : SymbolTable}
          (hlines : (stmt place false first).outcome table = (.ok lines, between)) :=
        stmt_accounted place false first hlines
      have hrest {more : List Target.Stmt} {between : SymbolTable}
          (hmore : (caseBody place rest).outcome between = (.ok more, after)) :=
        case_accounted place rest hmore
      by_cases hbreak : first = .breaks
      · rw [hbreak, caseBody] at h
        cases h
        exact .nil
      · obtain ⟨lines, more, between, hlines, hmore, rfl⟩ := exists_of_label hbreak h
        rw [Target.allTargets_append, allAssigned, caseMentioned]
        · exact ((hfirst hlines).mono (by simp) (by simp)).append
            ((hrest hmore).mono (by simp) (by simp))
        · exact hbreak

theorem groups_accounted (place : Place) : (cases : List (SwitchCase Stmt)) →
    ∀ (pending : Option Target.Expr) (subjects tests : List Mention) {subject : Target.Expr}
      {table after : SymbolTable} {out : List (Target.Expr × List Target.Stmt)},
      (groups place subject pending cases).outcome table = (.ok out, after) →
        Accounted (allCaseAssigned cases) (labelsMentioned subjects tests cases) (groupTargets out)
  | [], pending, subjects, tests, subject, table, after, out, h => by
      rw [groups] at h
      cases h
      exact .nil
  | ⟨label, []⟩ :: rest, pending, subjects, tests, subject, table, after, out, h => by
      obtain ⟨test, -, hrest⟩ := exists_of_emptyLabel h
      have hgroups := groups_accounted place rest _ subjects
        (tests ++ (subjects ++ label.mentioned)) hrest
      rw [allCaseAssigned, labelsMentioned]
      exact hgroups.mono (by simp) (by simp)
  | ⟨label, first :: body⟩ :: rest, pending, subjects, tests, subject, table, after, out, h => by
      obtain ⟨test, lines, inner, more, -, hlines, hmore, rfl⟩ := exists_of_group h
      have hbody := case_accounted place (first :: body) hlines
      have hrest := groups_accounted place rest none subjects [] hmore
      rw [allCaseAssigned, labelsMentioned, groupTargets, List.flatMap_cons, ← groupTargets]
      exact (hbody.mono (by simp) (by simp +contextual [List.subset_def])).append
        (hrest.mono (by simp) (by simp +contextual [List.subset_def]))

theorem default_accounted (place : Place) : (default : Option (List Stmt)) →
    ∀ {table after : SymbolTable} {out : Option (List Target.Stmt)},
      (defaultBody place default).outcome table = (.ok out, after) →
        Accounted (partAssigned default) (defaultMentioned default) (allTargets (out.getD []))
  | none, table, after, out, h => by
      rw [defaultBody] at h
      cases h
      exact .nil
  | some body, table, after, out, h => by
      obtain ⟨lines, inner, hlines, rfl, rfl⟩ := exists_of_default h
      exact case_accounted place body hlines

theorem handlers_accounted (place : Place) : (catches : List (CatchClause Stmt)) →
    ∀ {table after : SymbolTable} {out : List (Target.Handler Target.Stmt)},
      (handlers place catches).outcome table = (.ok out, after) →
        Accounted (allCatchAssigned catches) (catchesMentioned catches) (Target.handlerTargets out)
  | [], table, after, out, h => by
      rw [handlers] at h
      cases h
      exact .nil
  | ⟨exception, name, body, position⟩ :: rest, table, after, out, h => by
      obtain ⟨lines, inner, more, hlines, hmore, rfl⟩ := exists_of_handler h
      have hbody := stmts_accounted place body hlines
      have hrest := handlers_accounted place rest hmore
      rw [allCatchAssigned, catchesMentioned, Target.handlerTargets]
      exact .cons (.inr List.mem_cons_self)
        ((hbody.mono (by simp) (by simp)).append (hrest.mono (by simp) (by simp)))

theorem cleanup_accounted (place : Place) : (cleanup : Option (List Stmt)) →
    ∀ {table after : SymbolTable} {out : Option (List Target.Stmt)},
      (cleanupBody place cleanup).outcome table = (.ok out, after) →
        Accounted (partAssigned cleanup) (cleanupMentioned cleanup) (allTargets (out.getD []))
  | none, table, after, out, h => by
      rw [cleanupBody] at h
      cases h
      exact .nil
  | some body, table, after, out, h => by
      obtain ⟨lines, inner, hlines, rfl, rfl⟩ := exists_of_cleanup h
      exact stmts_accounted place body hlines

end

end Lowering

end MiniJava
