import MiniJava.Proofs.Lowering.Meanings

/-!
# References and scopes of lowered code

A result of a lowering refers to what the names mean in its tables, and it extends the table in
which it starts by what it declares.
-/

namespace MiniJava

namespace Lowering

open Target (allReferences)

section Expressions

variable {place : Place} {table after : SymbolTable}

/-- How names are written in a table. -/
theorem map_reference_meanings (names : List String) :
    (place.meanings table names).map Meaning.reference = names.map (place.reference table) := by
  rw [Place.meanings, List.map_map]
  rfl

theorem reference_references (name : String) :
    (place.reference table name).references = [place.reference table name] := by
  unfold Place.reference
  split <;> rfl

theorem expr_references {e : Expr} {out : Target.Expr} (h : expr place table e = .ok out) :
    out.references = e.names.map (place.reference table) := by
  induction e generalizing out with
  | literal value position =>
      cases h
      cases value <;> rfl
  | name word position =>
      cases h
      exact reference_references word
  | binary op lhs rhs ihl ihr =>
      rw [expr] at h
      split at h
      · cases h
      · next operator hoperator =>
          cases hleft : expr place table lhs with
          | error error => rw [hleft] at h; cases h
          | ok left =>
              cases hright : expr place table rhs with
              | error error => rw [hleft, hright] at h; cases h
              | ok right =>
                  rw [hleft, hright] at h
                  cases h
                  rw [Expr.names, List.map_append, ← ihl hleft, ← ihr hright]
                  have htext (type : Option ValueType) (side : Target.Expr) :
                      (asText type side).references = side.references := by
                    unfold asText
                    split <;> rfl
                  unfold binary
                  split
                  · rw [Target.Expr.references, htext, htext]
                  · rfl
  | unary op operand ih =>
      rw [expr] at h
      cases hoperand : expr place table operand with
      | error error => rw [hoperand] at h; cases h
      | ok inner =>
          rw [hoperand] at h
          cases h
          rw [Expr.names, ← ih hoperand]
          cases op <;> rfl
  | assign target op value position => cases h
  | step target op form position => cases h

theorem value_references {e : Expr} {out : Target.Expr}
    (h : (value place e).outcome table = (.ok out, after)) :
    out.references = (place.meanings table e.names).map Meaning.reference := by
  rw [map_reference_meanings]
  exact expr_references (Prod.mk.inj h).1

theorem values_references {list : List Expr} {out : List Target.Expr}
    (h : (values place list).outcome table = (.ok out, after)) :
    out.flatMap Target.Expr.references =
      (place.meanings table (namesIn list)).map Meaning.reference := by
  induction list generalizing out after with
  | nil =>
      cases h
      rfl
  | cons first rest ih =>
      obtain ⟨value, hvalue, hrest⟩ := (Reads.value place first).exists_of_bind h
      obtain ⟨more, hmore, hpure⟩ := (Reads.values place rest).exists_of_bind hrest
      cases hpure
      rw [List.flatMap_cons, value_references hvalue, ih hmore, ← List.map_append]
      simp only [Place.meanings, namesIn, List.flatMap_cons, List.map_append]

theorem default_references (type : ValueType) : (defaultValue type).references = [] := by
  unfold defaultValue
  split
  · rfl
  · rfl
  · rfl
  · split <;> rfl

theorem initial_references {decl : VarDecl} {out : Target.Expr}
    (h : (initial place decl).outcome table = (.ok out, after)) :
    out.references = (place.meanings table (namesIn decl.init.toList)).map Meaning.reference := by
  unfold initial at h
  cases hinit : decl.init with
  | none =>
      rw [hinit] at h
      cases h
      exact default_references _
  | some init =>
      rw [hinit] at h
      rw [value_references h, Option.toList_some, namesIn, List.flatMap_singleton]

theorem loopCondition_references {e : Option Expr} {out : Target.Expr}
    (h : (loopCondition place e).outcome table = (.ok out, after)) :
    out.references = (place.meanings table (namesIn e.toList)).map Meaning.reference := by
  cases e with
  | none =>
      cases h
      rfl
  | some e =>
      rw [loopCondition] at h
      rw [value_references h, Option.toList_some, namesIn, List.flatMap_singleton]

theorem format_references {e : Expr} {out : Target.Expr}
    (h : (format place e).outcome table = (.ok out, after)) :
    out.references = (place.meanings table e.names).map Meaning.reference := by
  unfold format at h
  split at h
  · cases h
    rfl
  · exact value_references h

/-- A print call with one value shows it. -/
theorem first_references {args : List Expr} {values : List Target.Expr}
    (h : (Lowering.values place (args.take 1)).outcome table = (.ok values, after))
    (newline : Bool) : (Target.Stmt.print values.head? newline).references =
      (place.meanings table (namesIn (args.take 1))).map Meaning.reference := by
  have hvalues := values_references h
  cases args with
  | nil =>
      cases h
      rfl
  | cons first rest =>
      obtain ⟨value, _, hpure⟩ := (Reads.value place first).exists_of_bind h
      cases hpure
      rw [← hvalues]
      exact (List.append_nil _).symm

theorem print_references {kind : PrintKind} {args : List Expr} {out : List Target.Stmt}
    (h : (print place kind args).outcome table = (.ok out, after)) :
    allReferences out =
      (place.meanings table (namesIn (kind.shown args))).map Meaning.reference := by
  cases kind with
  | println =>
      obtain ⟨values, hvalues, hpure⟩ := (Reads.values place (args.take 1)).exists_of_bind h
      cases hpure
      exact (List.append_nil _).trans (first_references hvalues true)
  | print =>
      obtain ⟨values, hvalues, hpure⟩ := (Reads.values place (args.take 1)).exists_of_bind h
      cases hpure
      exact (List.append_nil _).trans (first_references hvalues false)
  | printf =>
      cases args with
      | nil =>
          cases h
          rfl
      | cons first rest =>
          obtain ⟨format, hformat, hrest⟩ := (Reads.format place first).exists_of_bind h
          obtain ⟨more, hmore, hpure⟩ := (Reads.values place rest).exists_of_bind hrest
          cases hpure
          simp only [allReferences, Target.Stmt.references, List.append_nil,
            format_references hformat, values_references hmore, PrintKind.shown, namesIn,
            List.flatMap_cons, Place.meanings, List.map_append]

/-- The target of an assignment stands in front of its value, and may be looked up behind it. -/
theorem target_references {value : Target.Expr} {names : List String} (behind : SymbolTable)
    (target : String)
    (hvalue : value.references = (place.meanings table names).map Meaning.reference) :
    (place.reference behind target).references ++ value.references =
      (place.meaning behind target :: place.meanings table names).map Meaning.reference := by
  rw [reference_references, hvalue]
  rfl

theorem effect_references {e : Expr} {out : List Target.Stmt}
    (h : (effect place e).outcome table = (.ok out, after)) :
    allReferences out = (place.meanings table e.names).map Meaning.reference := by
  unfold effect at h
  split at h
  · next target e position =>
      obtain ⟨source, hsource, hrest⟩ := (Reads.value place e).exists_of_bind h
      cases hrest
      exact (List.append_nil _).trans (target_references table target (value_references hsource))
  · cases h
  · next target op e position _ =>
      obtain ⟨targetType, -, hrest⟩ := (Reads.typeOf (.name target position)).exists_of_bind h
      obtain ⟨sourceType, -, hrest⟩ := (Reads.typeOf e).exists_of_bind hrest
      obtain ⟨source, hsource, hrest⟩ := (Reads.value place e).exists_of_bind hrest
      cases hrest
      exact (List.append_nil _).trans (target_references table target (value_references hsource))
  · next target op form position =>
      cases h
      exact (List.append_nil _).trans (target_references table target rfl)
  · obtain ⟨value, hvalue, hpure⟩ := (Reads.value place e).exists_of_bind h
    cases hpure
    exact (List.append_nil _).trans (value_references hvalue)

theorem effects_references {list : List Expr} {out : List Target.Stmt}
    (h : (effects place list).outcome table = (.ok out, after)) :
    allReferences out = (place.meanings table (namesIn list)).map Meaning.reference := by
  induction list generalizing out after with
  | nil =>
      cases h
      rfl
  | cons first rest ih =>
      obtain ⟨lines, hlines, hrest⟩ := (Reads.effect place first).exists_of_bind h
      obtain ⟨more, hmore, hpure⟩ := (Reads.effects place rest).exists_of_bind hrest
      cases hpure
      rw [Target.allReferences_append, effect_references hlines, ih hmore, ← List.map_append]
      simp only [Place.meanings, namesIn, List.flatMap_cons, List.map_append]

end Expressions

section Behind

variable {α : Type} {action : Lowering α} {table after : SymbolTable} {a : α}

theorem behind_eq (h : action.outcome table = (.ok a, after)) : behind action table = after :=
  congrArg Prod.snd h

theorem behind_bind {β : Type} {next : α → Lowering β} (h : action.outcome table = (.ok a, after)) :
    behind (action >>= next) table = behind (next a) after := by
  rw [behind, outcome_bind, h]
  rfl

theorem outcome_inScope {inner : SymbolTable} (h : action.outcome table.enter = (.ok a, inner)) :
    (inScope action).outcome table = (.ok a, inner.leave) :=
  congrArg (fun result => (result.1, result.2.leave)) h

theorem behind_inScope {inner : SymbolTable} (h : action.outcome table.enter = (.ok a, inner)) :
    behind (inScope action) table = inner.leave := congrArg (·.2.leave) h

end Behind

/-- A result with these references, which are what the names in it mean, behind declarations of
`names`. -/
structure Refers (names : List String) (list : List Meaning) (references : List Target.Expr)
    (table after : SymbolTable) : Prop where
  scope : table.Extends names after
  references : references = list.map Meaning.reference

namespace Refers

variable {names more : List String} {list rest : List Meaning}
  {references further : List Target.Expr} {table between after : SymbolTable}

theorem reads (h : references = list.map Meaning.reference) :
    Refers [] list references table table := ⟨.refl table, h⟩

theorem mono (h : Refers names list references table after) (hsub : names ⊆ more) :
    Refers more list references table after := ⟨h.scope.mono hsub, h.references⟩

/-- What has no declarations of its own can stand for what has some. -/
theorem weaken (h : Refers [] list references table after) :
    Refers names list references table after := h.mono (List.nil_subset _)

theorem append (h : Refers names list references table between)
    (hrest : Refers more rest further between after) :
    Refers (names ++ more) (list ++ rest) (references ++ further) table after :=
  ⟨h.scope.trans hrest.scope, by rw [h.references, hrest.references, List.map_append]⟩

theorem leave (h : Refers names list references table.enter after) :
    Refers [] list references table after.leave :=
  ⟨.of_bare h.scope.leave, h.references⟩

theorem single {s : Target.Stmt} (h : Refers names list s.references table after) :
    Refers names list (allReferences [s]) table after :=
  ⟨h.scope, (List.append_nil _).trans h.references⟩

theorem split {body last : List Target.Stmt}
    (h : Refers names list (allReferences body ++ allReferences last) table after) :
    Refers names list (allReferences (body ++ last)) table after :=
  ⟨h.scope, (Target.allReferences_append body last).trans h.references⟩

end Refers

theorem boundBehind_references {place : Place} {table after : SymbolTable} {loop : RangeLoop}
    {bound : Target.Expr} (h : (value place loop.stop).outcome table = (.ok bound, after)) :
    (boundBehind loop bound).references = bound.references := by
  have hbound := value_references h
  have hoffset (operator : Target.Operator) :
      (Target.Expr.binary operator bound (.number "1")).references = bound.references :=
    List.append_nil _
  unfold boundBehind
  split
  · next n hn =>
      obtain ⟨text, position, hstop, -⟩ := RangeLoop.exists_of_literalBound? hn
      rw [hstop] at hbound
      exact hbound.symm
  · exact hoffset _

def groupReferences (labels : List (Target.Expr × List Target.Stmt)) : List Target.Expr :=
  labels.flatMap fun label => label.1.references ++ allReferences label.2

theorem alternatives_references (default : Option (List Target.Stmt))
    (labels : List (Target.Expr × List Target.Stmt)) :
    (alternatives default labels).references =
      groupReferences labels ++ allReferences (default.getD []) := by
  induction labels with
  | nil => cases default <;> rfl
  | cons label rest ih =>
      rw [alternatives, Target.Alternative.references, ih, groupReferences, groupReferences,
        List.flatMap_cons, List.append_assoc, List.append_assoc, List.append_assoc]

theorem chain_references (default : Option (List Target.Stmt))
    (labels : List (Target.Expr × List Target.Stmt)) :
    allReferences (chain labels default) =
      groupReferences labels ++ allReferences (default.getD []) := by
  cases labels with
  | nil => rfl
  | cons label rest =>
      rw [chain, allReferences, Target.Stmt.references, alternatives_references, allReferences,
        List.append_nil, groupReferences, groupReferences, List.flatMap_cons, List.append_assoc,
        List.append_assoc, List.append_assoc]

theorem matching_references (subject label : Target.Expr) (pending : Option Target.Expr) :
    (matching subject pending label).references =
      (pending.map Target.Expr.references).getD [] ++ (subject.references ++ label.references) := by
  cases pending <;> rfl

theorem tryExcept_references (body : List Target.Stmt)
    (handlers : List (Target.Handler Target.Stmt)) (cleanup : Option (List Target.Stmt)) :
    (Target.Stmt.tryExcept body handlers cleanup).references =
      allReferences body ++ Target.handlerReferences handlers ++
        allReferences (cleanup.getD []) := by
  cases cleanup with
  | none => exact (List.append_nil _).symm
  | some lines => rfl

def declaredNames (shared : Bool) (s : Stmt) : List String :=
  if shared then s.declaredWithin else s.declared

theorem declaredNames_declare (shared : Bool) (decl : VarDecl) :
    declaredNames shared (.declare decl) = [decl.name] := by
  cases shared <;> rfl

mutual

theorem stmt_refers (place : Place) (shared : Bool) : (s : Stmt) →
    ∀ {table after : SymbolTable} {out : List Target.Stmt},
      (stmt place shared s).outcome table = (.ok out, after) →
        Refers (declaredNames shared s) (meanings place shared table s) (allReferences out) table
          after
  | .declare decl, table, after, out, h => by
      obtain ⟨source, hsource, hafter, rfl⟩ := exists_of_declare h
      rw [meanings, behind_eq h, declaredNames_declare]
      exact .single ⟨hafter ▸ .bring .., target_references after _ (initial_references hsource)⟩
  | .expression e, table, after, out, h => by
      rw [stmt] at h
      obtain rfl := (Reads.effect place e).after h
      rw [meanings]
      exact (Refers.reads (effect_references h)).weaken
  | .block body, table, after, out, h => by
      rw [meanings]
      cases shared with
      | true =>
          rw [stmt, if_pos rfl] at h
          exact stmts_refers place body h
      | false =>
          obtain ⟨inner, hinner, rfl⟩ := exists_of_block h
          exact (stmts_refers place body hinner).leave
  | .ifElse e thenBranch elseBranch, table, after, out, h => by
      obtain ⟨condition, body, inner, rest, hcondition, hbody, hrest, rfl⟩ := exists_of_ifElse h
      have hthen := (stmt_refers place true thenBranch hbody).leave
      have helse := else_refers place elseBranch hrest
      rw [meanings, behind_inScope hbody]
      exact (((Refers.reads (value_references hcondition)).append hthen).append helse).single.weaken
  | .whileLoop e body, table, after, out, h => by
      obtain ⟨condition, lines, inner, hcondition, hbody, rfl, rfl⟩ := exists_of_whileLoop h
      have hlines := (stmt_refers place true body hbody).leave
      rw [meanings]
      exact ((Refers.reads (value_references hcondition)).append hlines).single.weaken
  | .doWhile body e, table, after, out, h => by
      obtain ⟨lines, condition, inner, hbody, hcondition, rfl, rfl⟩ := exists_of_doWhile h
      have hlines := stmt_refers place true body hbody
      rw [meanings, behind_eq hbody]
      have htest : Refers [] (place.meanings inner e.names)
          (allReferences [exitUnless condition]) inner inner :=
        .single (.reads (by simpa [exitUnless, Target.Stmt.references, allReferences,
          Target.Alternative.references, Target.Expr.references] using
            value_references hcondition))
      exact (hlines.append htest).split.leave.single.weaken
  | .forLoop none e update body, table, after, out, h => by
      obtain ⟨condition, lines, last, inner, hcondition, hbody, hlast, rfl, rfl⟩ :=
        exists_of_bareFor h
      have hlines := stmt_refers place true body hbody
      have hround := (hlines.append (.reads (effects_references hlast))).split.leave
      rw [meanings, behind_eq hbody]
      exact ((Refers.reads (loopCondition_references hcondition)).append hround).single.leave.weaken
  | .forLoop (some init) e update body, table, after, out, h => by
      rw [meanings]
      cases hdetect : RangeLoop.detect? init e update body with
      | none =>
          obtain ⟨first, begun, condition, lines, last, inner, hfirst, hcondition, hbody, hlast,
            rfl, rfl⟩ := exists_of_for hdetect h
          have hinit := stmt_refers place false init hfirst
          have hlines := stmt_refers place true body hbody
          have hround := (hlines.append (.reads (effects_references hlast))).split.leave
          have hloop := (Refers.reads (loopCondition_references hcondition)).append hround
          simp only [behind_eq hfirst, behind_eq hbody]
          exact (hinit.append hloop.single).split.leave.weaken
      | some loop =>
          obtain ⟨start, bound, lines, inner, hbounds, hbody, rfl, rfl⟩ := exists_of_range hdetect h
          obtain ⟨_, stop, hstart, hstop, -, hpair⟩ := exists_of_rangeBounds hbounds
          obtain ⟨rfl, hinclusive⟩ := Prod.mk.inj hpair
          have hlines := (stmt_refers place true body hbody).leave
          have hbound : bound.references =
              (place.meanings table.enter loop.stop.names).map Meaning.reference := by
            rw [← value_references hstop, hinclusive]
            split
            · exact boundBehind_references hstop
            · rfl
          have hheader : Refers [loop.counter]
              (place.meaning (counted loop table.enter) loop.counter ::
                place.meanings table.enter loop.start.names ++
                place.meanings table.enter loop.stop.names)
              ((place.reference (counted loop table.enter) loop.counter).references ++
                start.references ++ bound.references) table.enter (counted loop table.enter) :=
            ⟨.bring .., by
              rw [reference_references, value_references hstart, hbound, List.map_append]
              rfl⟩
          simp only [behind_eq hbounds]
          exact (hheader.append hlines).single.leave.weaken
  | .switch scrutinee cases default, table, after, out, h => by
      obtain ⟨subject, labels, between, rest, hsubject, hlabels, hdefault, rfl⟩ :=
        exists_of_switch h
      have hgroups := groups_refers place cases none [] (value_references hsubject) rfl hlabels
      have hrest := default_refers place default hdefault
      have hbehind : behind (do groups place (← value place scrutinee) none cases) table =
          between := by
        rw [behind_bind hsubject]
        exact behind_eq hlabels
      rw [meanings, hbehind, chain_references]
      exact (hgroups.append hrest).weaken
  | .tryCatch body catches cleanup, table, after, out, h => by
      obtain ⟨first, inner, caught, between, last, hfirst, hcaught, hlast, rfl⟩ :=
        exists_of_tryCatch h
      have hbody := (stmts_refers place body hfirst).leave
      have hhandlers := handlers_refers place catches hcaught
      have hcleanup := cleanup_refers place cleanup hlast
      have hbehind : behind (do let _ ← inScope (stmts place body); handlers place catches) table =
          between := by
        rw [behind_bind (outcome_inScope hfirst)]
        exact behind_eq hcaught
      rw [meanings, hbehind, behind_inScope hfirst]
      refine Refers.weaken (Refers.single ?_)
      rw [tryExcept_references]
      exact (hbody.append hhandlers).append hcleanup
  | .print kind args position, table, after, out, h => by
      rw [stmt] at h
      obtain rfl := (Reads.print place kind args).after h
      rw [meanings]
      exact (Refers.reads (print_references h)).weaken
  | .returns none position, table, after, out, h => by
      rw [stmt] at h
      cases h
      rw [meanings]
      exact (Refers.reads rfl).weaken
  | .returns (some e) position, table, after, out, h => by
      rw [stmt] at h
      obtain ⟨value, hvalue, hpure⟩ := (Reads.value place e).exists_of_bind h
      cases hpure
      rw [meanings, Option.toList_some, namesIn, List.flatMap_singleton]
      exact (Refers.reads (value_references hvalue)).single.weaken
  | .breaks, table, after, out, h | .continues, table, after, out, h
  | .empty, table, after, out, h => by
      rw [stmt] at h
      cases h
      rw [meanings]
      exact (Refers.reads rfl).weaken

theorem stmts_refers (place : Place) : (body : List Stmt) →
    ∀ {table after : SymbolTable} {out : List Target.Stmt},
      (stmts place body).outcome table = (.ok out, after) →
        Refers (body.flatMap Stmt.declared) (bodyMeanings place table body) (allReferences out)
          table after
  | [], table, after, out, h => by
      rw [stmts] at h
      cases h
      rw [bodyMeanings]
      exact .reads rfl
  | first :: rest, table, after, out, h => by
      obtain ⟨lines, more, between, hlines, hmore, rfl⟩ := exists_of_cons h
      have hfirst := stmt_refers place false first hlines
      have hrest := stmts_refers place rest hmore
      rw [bodyMeanings, behind_eq hlines]
      exact (hfirst.append hrest).split

theorem else_refers (place : Place) : (branch : Option Stmt) →
    ∀ {table after : SymbolTable} {out : Target.Alternative},
      (alternative place branch).outcome table = (.ok out, after) →
        Refers [] (elseMeanings place table branch) out.references table after
  | none, table, after, out, h => by
      rw [alternative] at h
      cases h
      rw [elseMeanings]
      exact .reads rfl
  | some branch, table, after, out, h => by
      have hbranch {lines : List Target.Stmt} {inner : SymbolTable}
          (hbody : (stmt place true branch).outcome table.enter = (.ok lines, inner)) :=
        (stmt_refers place true branch hbody).leave
      cases branch with
      | ifElse e thenBranch elseBranch =>
          obtain ⟨condition, body, rest, hstmt, rfl⟩ := exists_of_elseIf h
          obtain ⟨_, _, inner, _, hcondition, hbody, hrest, hout⟩ := exists_of_ifElse hstmt
          cases hout
          have hthen := (stmt_refers place true thenBranch hbody).leave
          have helse := else_refers place elseBranch hrest
          rw [elseMeanings, behind_inScope hbody]
          exact ((Refers.reads (value_references hcondition)).append hthen).append helse
      | _ =>
          obtain ⟨body, inner, hbody, rfl, rfl⟩ := exists_of_otherwise (by nofun) h
          rw [elseMeanings]
          · exact hbranch hbody
          · nofun

theorem case_refers (place : Place) : (body : List Stmt) →
    ∀ {table after : SymbolTable} {out : List Target.Stmt},
      (caseBody place body).outcome table = (.ok out, after) →
        Refers (body.flatMap Stmt.declared) (caseMeanings place table body) (allReferences out)
          table after
  | [], table, after, out, h => by
      rw [caseBody] at h
      cases h
      rw [caseMeanings]
      exact .reads rfl
  | first :: rest, table, after, out, h => by
      have hfirst {lines : List Target.Stmt} {between : SymbolTable}
          (hlines : (stmt place false first).outcome table = (.ok lines, between)) :=
        stmt_refers place false first hlines
      have hrest {more : List Target.Stmt} {between : SymbolTable}
          (hmore : (caseBody place rest).outcome between = (.ok more, after)) :=
        case_refers place rest hmore
      by_cases hbreak : first = .breaks
      · rw [hbreak, caseBody] at h
        cases h
        rw [hbreak, caseMeanings]
        exact (Refers.reads rfl).weaken
      · obtain ⟨lines, more, between, hlines, hmore, rfl⟩ := exists_of_label hbreak h
        rw [caseMeanings, behind_eq hlines]
        · exact ((hfirst hlines).append (hrest hmore)).split
        · exact hbreak

theorem groups_refers (place : Place) : (cases : List (SwitchCase Stmt)) →
    ∀ (pending : Option Target.Expr) (tests : List Meaning) {subject : Target.Expr}
      {subjects : List Meaning} {table after : SymbolTable}
      {out : List (Target.Expr × List Target.Stmt)},
      subject.references = subjects.map Meaning.reference →
      (pending.map Target.Expr.references).getD [] = tests.map Meaning.reference →
      (groups place subject pending cases).outcome table = (.ok out, after) →
        Refers [] (labelMeanings place subjects tests table cases) (groupReferences out) table after
  | [], pending, tests, subject, subjects, table, after, out, hsubject, hpending, h => by
      rw [groups] at h
      cases h
      rw [labelMeanings]
      exact .reads rfl
  | ⟨label, []⟩ :: rest, pending, tests, subject, subjects, table, after, out, hsubject, hpending,
      h => by
      obtain ⟨test, htest, hrest⟩ := exists_of_emptyLabel h
      rw [labelMeanings]
      refine groups_refers place rest _ _ hsubject ?_ hrest
      rw [Option.map_some, Option.getD_some, matching_references, hpending, hsubject,
        value_references htest, List.map_append, List.map_append]
  | ⟨label, first :: body⟩ :: rest, pending, tests, subject, subjects, table, after, out, hsubject,
      hpending, h => by
      obtain ⟨test, lines, inner, more, htest, hlines, hmore, rfl⟩ := exists_of_group h
      have hbody := (case_refers place (first :: body) hlines).leave
      have hrest := groups_refers place rest none [] hsubject rfl hmore
      have htests : (matching subject pending test).references = (tests ++ (subjects ++
          place.meanings table label.names)).map Meaning.reference := by
        rw [matching_references, hpending, hsubject, value_references htest, List.map_append,
          List.map_append]
      rw [labelMeanings, behind_inScope hlines]
      exact ((Refers.reads htests).append hbody).append hrest

theorem default_refers (place : Place) : (default : Option (List Stmt)) →
    ∀ {table after : SymbolTable} {out : Option (List Target.Stmt)},
      (defaultBody place default).outcome table = (.ok out, after) →
        Refers [] (defaultMeanings place table default) (allReferences (out.getD [])) table after
  | none, table, after, out, h => by
      rw [defaultBody] at h
      cases h
      rw [defaultMeanings]
      exact .reads rfl
  | some body, table, after, out, h => by
      obtain ⟨lines, inner, hlines, rfl, rfl⟩ := exists_of_default h
      rw [defaultMeanings]
      exact (case_refers place body hlines).leave

theorem handlers_refers (place : Place) : (catches : List (CatchClause Stmt)) →
    ∀ {table after : SymbolTable} {out : List (Target.Handler Target.Stmt)},
      (handlers place catches).outcome table = (.ok out, after) →
        Refers [] (handlerMeanings place table catches) (Target.handlerReferences out) table after
  | [], table, after, out, h => by
      rw [handlers] at h
      cases h
      rw [handlerMeanings]
      exact .reads rfl
  | ⟨exception, name, body, position⟩ :: rest, table, after, out, h => by
      obtain ⟨lines, inner, more, hlines, hmore, rfl⟩ := exists_of_handler h
      have hdeclare := outcome_declare name (.ofTypeName exception) position table.enter
      have hinner := (outcome_declare_bind name (.ofTypeName exception) position
        (fun _ => stmts place body) table.enter).trans hlines
      have hcaught : Refers [name] [] [] table.enter
          (table.enter.bring name (declared (.ofTypeName exception) position)) := ⟨.bring .., rfl⟩
      have hbody := (hcaught.append (stmts_refers place body hlines)).leave
      have hrest := handlers_refers place rest hmore
      rw [handlerMeanings, behind_eq hdeclare, behind_inScope hinner]
      exact hbody.append hrest

theorem cleanup_refers (place : Place) : (cleanup : Option (List Stmt)) →
    ∀ {table after : SymbolTable} {out : Option (List Target.Stmt)},
      (cleanupBody place cleanup).outcome table = (.ok out, after) →
        Refers [] (cleanupMeanings place table cleanup) (allReferences (out.getD [])) table after
  | none, table, after, out, h => by
      rw [cleanupBody] at h
      cases h
      rw [cleanupMeanings]
      exact .reads rfl
  | some body, table, after, out, h => by
      obtain ⟨lines, inner, hlines, rfl, rfl⟩ := exists_of_cleanup h
      rw [cleanupMeanings]
      exact (stmts_refers place body hlines).leave

end

section Programs

variable {place : Place} {table after : SymbolTable}

theorem outcome_declareParams (params : List Param) (table : SymbolTable) :
    (declareParams params).outcome table = (.ok (), table.bringParams params) := by
  induction params generalizing table with
  | nil => rfl
  | cons param rest ih =>
      rw [declareParams, outcome_declare_bind]
      exact ih _

theorem exists_of_method {decl : Method} {out : Target.Stmt}
    (h : (method place decl).outcome table = (.ok out, after)) :
    ∃ body inner, (stmts { place with method := some (kindOf decl) } decl.body).outcome
        (table.enter.bringParams decl.params) = (.ok body, inner) ∧
      after = inner.leave ∧
      out = .function decl.isStatic (methodName decl) (paramNames decl) body := by
  obtain ⟨body, _, hbody, hpure⟩ := exists_of_bind h
  obtain ⟨inner, hinner, rfl⟩ := exists_of_inScope hbody
  obtain ⟨_, between, hparams, hstmts⟩ := exists_of_bind hinner
  rw [outcome_declareParams] at hparams
  cases hparams
  cases hpure
  exact ⟨body, inner, hstmts, rfl, rfl⟩

theorem method_refers {decl : Method} {out : Target.Stmt}
    (h : (method place decl).outcome table = (.ok out, after)) :
    Refers [] (methodMeanings place table decl) out.references table after := by
  obtain ⟨body, inner, hbody, rfl, rfl⟩ := exists_of_method h
  have hparams : Refers _ [] [] table.enter (table.enter.bringParams decl.params) :=
    ⟨.bringParams table.enter decl.params, rfl⟩
  rw [methodMeanings, behind_eq (outcome_declareParams decl.params table.enter)]
  exact (hparams.append (stmts_refers _ decl.body hbody)).leave

theorem exists_of_field {decl : VarDecl} {rest : List Member} {out : List Target.Stmt}
    (h : (fields place (.field decl :: rest)).outcome table = (.ok out, after)) :
    ∃ source more, (initial place decl).outcome table = (.ok source, table) ∧
      (fields place rest).outcome
        (table.bring decl.name (declared (.ofTypeName decl.type) decl.position)) =
          (.ok more, after) ∧
      out = .assign (.name decl.name) source :: more := by
  rw [fields] at h
  obtain ⟨source, hsource, hrest⟩ := (Reads.initial place decl).exists_of_bind h
  rw [outcome_declare_bind] at hrest
  obtain ⟨more, _, hmore, hpure⟩ := exists_of_bind hrest
  cases hpure
  exact ⟨source, more, hsource, hmore, rfl⟩

theorem behind_field {decl : VarDecl} {source : Target.Expr}
    (h : (initial place decl).outcome table = (.ok source, after)) :
    behind (fields place [.field decl]) table =
      after.bring decl.name (declared (.ofTypeName decl.type) decl.position) := by
  rw [fields, behind_bind h, behind_bind (outcome_declare ..)]
  rfl

def fieldNames : List Member → List String
  | [] => []
  | .field decl :: rest => decl.name :: fieldNames rest
  | .method _ :: rest => fieldNames rest
  | .nested _ :: rest => fieldNames rest

/-- In a class body nothing is reached through a class or an object. -/
theorem reference_outside_methods (hmethod : place.method = none) (table : SymbolTable)
    (name : String) : place.reference table name = .name name := by
  have hholder : place.fieldHolder? table name = none := by
    unfold Place.fieldHolder?
    rw [hmethod]
    cases place.enclosing <;> cases table.resolve? name <;> rfl
  rw [Place.reference, hholder]

theorem fields_refers (hmethod : place.method = none) {members : List Member}
    {out : List Target.Stmt} (h : (fields place members).outcome table = (.ok out, after)) :
    Refers (fieldNames members) (fieldMeanings place table members) (allReferences out) table
      after := by
  induction members generalizing table out with
  | nil =>
      cases h
      exact .reads rfl
  | cons member rest ih =>
      cases member with
      | field decl =>
          obtain ⟨source, more, hsource, hmore, rfl⟩ := exists_of_field h
          let extended := table.bring decl.name (declared (.ofTypeName decl.type) decl.position)
          have hfield : Refers [decl.name] (place.meaning extended decl.name ::
              place.meanings table (namesIn decl.init.toList))
              (Target.Stmt.assign (.name decl.name) source).references table extended := by
            have htarget := target_references extended decl.name (initial_references hsource)
            rw [reference_outside_methods hmethod] at htarget
            exact ⟨.bring .., htarget⟩
          rw [fieldMeanings, behind_field hsource]
          exact hfield.append (ih hmore)
      | method decl => exact ih h
      | nested decl => exact ih h

end Programs

theorem exists_of_class {name : String} {modifiers : List Modifier} {members : List Member}
    {position : Position} {table after : SymbolTable} {out : Target.Stmt}
    (h : (classDecl ⟨modifiers, name, members, position⟩).outcome table = (.ok out, after)) :
    ∃ front rest between inner,
      (fields ⟨some ⟨name, table.enter.depth - 1⟩, none⟩ members).outcome table.enter =
        (.ok front, between) ∧
      (definitions ⟨some ⟨name, table.enter.depth - 1⟩, none⟩ members).outcome between =
        (.ok rest, inner) ∧
      after = inner.leave ∧ out = .classDef name (front ++ rest) := by
  rw [classDecl] at h
  obtain ⟨inner, hinner, rfl⟩ := exists_of_inScope h
  obtain ⟨_, hget, hrest⟩ := Reads.get.exists_of_bind hinner
  cases hget
  obtain ⟨front, between, hfront, hmore⟩ := exists_of_bind hrest
  obtain ⟨rest, _, hdefinitions, hpure⟩ := exists_of_bind hmore
  cases hpure
  exact ⟨front, rest, between, _, hfront, hdefinitions, rfl, rfl⟩

mutual

theorem class_refers : (decl : ClassDecl) → ∀ {table after : SymbolTable} {out : Target.Stmt},
    (classDecl decl).outcome table = (.ok out, after) →
      Refers [] (classMeanings table decl) out.references table after
  | ⟨modifiers, name, members, position⟩, table, after, out, h => by
      obtain ⟨front, rest, between, inner, hfront, hrest, rfl, rfl⟩ := exists_of_class h
      have hfields := fields_refers rfl hfront
      have hmembers := members_refers _ members hrest
      rw [classMeanings]
      simp only [behind_eq hfront]
      exact (hfields.append hmembers).split.leave

theorem members_refers (place : Place) : (members : List Member) →
    ∀ {table after : SymbolTable} {out : List Target.Stmt},
      (definitions place members).outcome table = (.ok out, after) →
        Refers [] (memberMeanings place table members) (allReferences out) table after
  | [], table, after, out, h => by
      rw [definitions] at h
      cases h
      rw [memberMeanings]
      exact .reads rfl
  | .field decl :: rest, table, after, out, h => by
      rw [definitions] at h
      rw [memberMeanings]
      exact members_refers place rest h
  | .method decl :: rest, table, after, out, h => by
      rw [definitions] at h
      obtain ⟨line, more, between, hline, hmore, rfl⟩ := exists_of_pair h
      rw [memberMeanings, behind_eq hline]
      exact (method_refers hline).append (members_refers place rest hmore)
  | .nested decl :: rest, table, after, out, h => by
      rw [definitions] at h
      obtain ⟨line, more, between, hline, hmore, rfl⟩ := exists_of_pair h
      rw [memberMeanings, behind_eq hline]
      exact (class_refers decl hline).append (members_refers place rest hmore)

end

theorem item_refers {i : Item} {table after : SymbolTable} {chunk : Target.Chunk}
    (h : (item i).outcome table = (.ok chunk, after)) :
    ∃ names, Refers names (itemMeanings table i) chunk.references table after := by
  cases i with
  | declaration decl =>
      obtain ⟨line, _, hline, hpure⟩ := exists_of_bind h
      cases hpure
      exact ⟨_, class_refers decl hline⟩
  | statement s =>
      obtain ⟨lines, _, hlines, hpure⟩ := exists_of_bind h
      cases hpure
      exact ⟨_, stmt_refers .outside false s hlines⟩

theorem items_refers {list : List Item} {table after : SymbolTable} {chunks : List Target.Chunk}
    (h : (items list).outcome table = (.ok chunks, after)) :
    chunks.flatMap Target.Chunk.references =
      (itemsMeanings table list).map Meaning.reference := by
  induction list generalizing table chunks with
  | nil =>
      cases h
      rfl
  | cons first rest ih =>
      obtain ⟨chunk, more, between, hchunk, hmore, rfl⟩ := exists_of_pair h
      obtain ⟨names, hfirst⟩ := item_refers hchunk
      rw [List.flatMap_cons, itemsMeanings, behind_eq hchunk, hfirst.references, ih hmore,
        List.map_append]

end Lowering

namespace Program

/-- The items of a program with a module can be lowered, into the chunks of the module. -/
theorem exists_of_toModule {program : Program} {m : Target.Module}
    (h : program.toModule = .ok m) :
    ∃ after, (Lowering.items program.items).outcome .empty = (.ok m.chunks, after) := by
  unfold toModule at h
  cases hitems : (Lowering.items program.items).outcome .empty with
  | mk result after =>
      rw [hitems] at h
      cases result with
      | error error => cases h
      | ok chunks =>
          cases h
          exact ⟨after, rfl⟩

theorem references_eq {program : Program} {m : Target.Module} (h : program.toModule = .ok m) :
    m.references = program.loweredMeanings.map Meaning.reference := by
  obtain ⟨after, hitems⟩ := exists_of_toModule h
  exact Lowering.items_refers hitems

end Program

end MiniJava
