import MiniJava.Grammar.Program
import MiniJava.Lowering.Program
import MiniJava.Proofs.Lowering.Shape
import MiniJava.Proofs.Lowering.Yields

/-!
# Where breaks go

A switch is lowered to a chain of conditions, and only the `break` that ends the statements of a
label is taken out. Lowering therefore forgets the switches of a program's shape, and the breaks
that are left in a switch leave the loop around it, or nothing at all.
-/

namespace MiniJava

namespace Lowering

open Target (Outline allOutline handlersOutline)

def Outlines (action : Lowering (List Target.Stmt)) (shape : Shape) : Prop :=
  Yields action fun out => allOutline out = shape.forgetSwitches

namespace Outlines

theorem pure {out : List Target.Stmt} {shape : Shape} (h : allOutline out = shape.forgetSwitches) :
    Outlines (Pure.pure out) shape := Yields.pure h

theorem inScope {action : Lowering (List Target.Stmt)} {shape : Shape} (h : Outlines action shape) :
    Outlines (Lowering.inScope action) shape := Yields.inScope h

/-- What is evaluated first leaves no statements behind. -/
theorem after {α : Type} {action : Lowering α} {next : α → Lowering (List Target.Stmt)}
    {shape : Shape} (h : ∀ a, Outlines (next a) shape) : Outlines (action >>= next) shape :=
  (Yields.trivial action).bind fun a _ => h a

theorem behind {α : Type} {action : Lowering α} {next : α → Lowering (List Target.Stmt)}
    {P : α → Prop} {shape : Shape} (h : Yields action P)
    (hnext : ∀ a, P a → Outlines (next a) shape) : Outlines (action >>= next) shape :=
  h.bind hnext

theorem append {front back : Lowering (List Target.Stmt)} {s t : Shape} (hfront : Outlines front s)
    (hback : Outlines back t) : Outlines (do return (← front) ++ (← back)) (s ++ t) := by
  refine hfront.bind fun first hfirst => hback.bind fun rest hrest => Yields.pure ?_
  rw [Target.allOutline_append, hfirst, hrest, Shape.forgetSwitches_append]

theorem loop {body : Lowering (List Target.Stmt)} {s : Shape}
    {head : List Target.Stmt → Target.Stmt} (h : Outlines body s)
    (hhead : ∀ out, (head out).outline = .loop (allOutline out) .done) :
    Outlines (do return [head (← body)]) (.loop s .done) := by
  refine h.bind fun out hout => Yields.pure ?_
  rw [allOutline, hhead, hout, Shape.forgetSwitches, Shape.forgetSwitches, allOutline,
    Outline.append_done]

end Outlines

theorem effect_outlines (place : Place) (e : Expr) : Outlines (effect place e) .done := by
  unfold effect
  split
  · exact .after fun _ => .after fun _ => .pure rfl
  · exact Yields.throw _
  · exact .after fun _ => .after fun _ => .after fun _ => .after fun _ => .pure rfl
  · exact .after fun _ => .pure rfl
  · exact .after fun _ => .pure rfl

theorem effects_outlines (place : Place) (es : List Expr) : Outlines (effects place es) .done := by
  induction es with
  | nil => exact .pure rfl
  | cons e es ih => exact (effect_outlines place e).append ih

/-- The updates of a `for` loop leave no break behind its body. -/
theorem Outlines.updating {body : Lowering (List Target.Stmt)} {shape : Shape} (place : Place)
    (update : List Expr) (h : Outlines body shape) :
    Outlines (do return (← body) ++ (← effects place update)) shape := by
  have heffects := effects_outlines place update
  refine h.bind fun out hout => heffects.bind fun last hlast => Yields.pure ?_
  rw [Target.allOutline_append, hout, hlast, Shape.forgetSwitches, Outline.append_done]

theorem print_outlines (place : Place) (kind : PrintKind) (args : List Expr) :
    Outlines (print place kind args) .done := by
  unfold print
  split
  · exact .pure rfl
  · exact .after fun _ => .after fun _ => .pure rfl
  · exact .after fun _ => .pure rfl
  · exact .after fun _ => .pure rfl

def groupsOutline : List (Target.Expr × List Target.Stmt) → Outline
  | [] => .done
  | (_, body) :: rest => allOutline body ++ groupsOutline rest

theorem alternatives_outline (groups : List (Target.Expr × List Target.Stmt))
    (default : Option (List Target.Stmt)) :
    (alternatives default groups).outline =
      groupsOutline groups ++ allOutline (default.getD []) := by
  induction groups with
  | nil => cases default <;> rfl
  | cons group groups ih =>
      rw [alternatives, Target.Alternative.outline, ih, groupsOutline, Outline.append_assoc]

theorem chain_outline (groups : List (Target.Expr × List Target.Stmt))
    (default : Option (List Target.Stmt)) :
    allOutline (chain groups default) = groupsOutline groups ++ allOutline (default.getD []) := by
  cases groups with
  | nil => rfl
  | cons group groups =>
      rw [chain, allOutline, Target.Stmt.outline, alternatives_outline, allOutline,
        Outline.append_done, groupsOutline, Outline.append_assoc]

theorem tryExcept_outline (body : List Target.Stmt) (handlers : List (Target.Handler Target.Stmt))
    (cleanup : Option (List Target.Stmt)) :
    (Target.Stmt.tryExcept body handlers cleanup).outline =
      allOutline body ++ handlersOutline handlers ++ allOutline (cleanup.getD []) := by
  cases cleanup with
  | none => rw [Target.Stmt.outline, Option.getD_none, allOutline, Outline.append_done]
  | some cleanup => rw [Target.Stmt.outline, Option.getD_some]

/-- What starts a counting loop is a declaration or an assignment. -/
theorem shape_of_counter? {init : Stmt} {counter : RangeLoop.Counter}
    (h : RangeLoop.counter? init = some counter) : init.shape = .done := by
  unfold RangeLoop.counter? at h
  split at h
  · rfl
  · rfl
  · cases h

theorem shape_of_detect? {init body : Stmt} {condition : Option Expr} {update : List Expr}
    {loop : RangeLoop} (h : RangeLoop.detect? init condition update body = some loop) :
    init.shape = .done := by
  obtain ⟨counter, hcounter, -⟩ := Option.bind_eq_some_iff.mp h
  exact shape_of_counter? hcounter

mutual

theorem stmt_outlines (place : Place) (shared : Bool) :
    (s : Stmt) → Outlines (stmt place shared s) s.shape
  | .declare decl => by
      rw [stmt]
      exact .after fun _ => .after fun _ => .after fun _ => .pure rfl
  | .expression e => by
      rw [stmt]
      exact effect_outlines place e
  | .block body => by
      have hbody := stmts_outlines place body
      cases shared with
      | true => rwa [stmt, if_pos rfl]
      | false =>
          rw [stmt, if_neg Bool.false_ne_true]
          exact hbody.inScope
  | .ifElse e thenBranch elseBranch => by
      have hthen := (stmt_outlines place true thenBranch).inScope
      have helse := alternative_outlines place elseBranch
      rw [stmt]
      refine .after fun condition => hthen.bind fun body hbody => helse.bind fun rest hrest =>
        .pure ?_
      rw [Stmt.shape, Shape.forgetSwitches_append, ← hbody, ← hrest, allOutline,
        Target.Stmt.outline, allOutline, Outline.append_done]
  | .whileLoop e body => by
      rw [stmt]
      exact .after fun _ => (stmt_outlines place true body).inScope.loop fun _ => rfl
  | .doWhile body e => by
      have hbody := stmt_outlines place true body
      rw [stmt]
      refine Outlines.loop (Outlines.inScope ?_) fun _ => rfl
      refine .behind hbody fun out hout => .after fun condition => .pure ?_
      rw [Target.allOutline_append, hout, Shape.forgetSwitches_append]
      rfl
  | .forLoop none e update body => by
      have hrounds := (stmt_outlines place true body).updating place update
      rw [stmt]
      refine .inScope (.after fun _ => ?_)
      exact hrounds.inScope.loop fun _ => rfl
  | .forLoop (some init) e update body => by
      have hinit := stmt_outlines place false init
      have hbody := stmt_outlines place true body
      have hrounds := (hbody.updating place update).inScope
      rw [stmt, Stmt.shape]
      apply Outlines.inScope
      split
      · rename_i loop hloop
        rw [shape_of_detect? hloop]
        exact .after fun _ => .after fun _ => hbody.inScope.loop fun _ => rfl
      · refine .after fun _ => .behind hinit fun first hfirst => .after fun _ =>
          .behind hrounds fun out hout => .pure ?_
        rw [Target.allOutline_append, hfirst, Shape.forgetSwitches_append, Shape.forgetSwitches,
          ← hout]
        rfl
  | .switch scrutinee cases default => by
      have hcases := groups_outline place cases
      have hdefault := defaultBody_outline place default
      rw [stmt]
      refine .after fun subject => (hcases subject none).bind fun groups hgroups =>
        hdefault.bind fun out hout => .pure ?_
      rw [chain_outline, hgroups, hout, Stmt.shape, Shape.forgetSwitches,
        Shape.forgetSwitches_append, Shape.forgetSwitches, Outline.append_done]
  | .tryCatch body catches cleanup => by
      have hbody := (stmts_outlines place body).inScope
      have hcatches := handlers_outline place catches
      have hcleanup := cleanupBody_outline place cleanup
      rw [stmt]
      refine hbody.bind fun out hout => hcatches.bind fun handlers hhandlers =>
        hcleanup.bind fun last hlast => .pure ?_
      rw [allOutline, tryExcept_outline, hout, hhandlers, hlast, Stmt.shape,
        Shape.forgetSwitches_append, Shape.forgetSwitches_append, allOutline, Outline.append_done]
  | .print kind args _ => by
      rw [stmt]
      exact print_outlines place kind args
  | .returns none _ => by
      rw [stmt]
      exact .pure rfl
  | .returns (some e) _ => by
      rw [stmt]
      exact .after fun _ => .pure rfl
  | .breaks | .continues | .empty => by
      rw [stmt]
      exact .pure rfl

theorem stmts_outlines (place : Place) :
    (body : List Stmt) → Outlines (stmts place body) (allShape body)
  | [] => by
      rw [stmts]
      exact .pure rfl
  | first :: rest => by
      rw [stmts]
      exact (stmt_outlines place false first).append (stmts_outlines place rest)

theorem alternative_outlines (place : Place) : (branch : Option Stmt) →
    Yields (alternative place branch) fun out => out.outline = (elseShape branch).forgetSwitches
  | none => by
      rw [alternative]
      exact Yields.pure rfl
  | some branch => by
      have hbranch := (stmt_outlines place true branch).inScope
      cases branch with
      | ifElse e thenBranch elseBranch =>
          have hthen := (stmt_outlines place true thenBranch).inScope
          have helse := alternative_outlines place elseBranch
          rw [alternative]
          refine (Yields.trivial _).bind fun condition _ => hthen.bind fun body hbody =>
            helse.bind fun rest hrest => Yields.pure ?_
          rw [elseShape, Stmt.shape, Shape.forgetSwitches_append, Target.Alternative.outline,
            hbody, hrest]
      | _ =>
          rw [alternative]
          · exact hbranch.bind fun out hout => Yields.pure hout
          · nofun

theorem caseBody_outlines (place : Place) :
    (body : List Stmt) → Outlines (caseBody place body) (labelShape body)
  | [] => by
      rw [caseBody]
      exact .pure rfl
  | first :: rest => by
      have hfirst := stmt_outlines place false first
      have hrest := caseBody_outlines place rest
      by_cases hbreak : first = .breaks
      · rw [hbreak, caseBody, labelShape]
        exact .pure rfl
      · rw [caseBody, labelShape]
        · exact hfirst.append hrest
        · exact hbreak
        · exact hbreak

theorem groups_outline (place : Place) : (cases : List (SwitchCase Stmt)) →
    ∀ (subject : Target.Expr) (pending : Option Target.Expr),
      Yields (groups place subject pending cases) fun out =>
        groupsOutline out = (casesShape cases).forgetSwitches
  | [], subject, pending => by
      rw [groups]
      exact Yields.pure rfl
  | ⟨label, body⟩ :: rest, subject, pending => by
      have hbody := (caseBody_outlines place body).inScope
      have hrest := groups_outline place rest subject
      rw [groups]
      refine (Yields.trivial _).bind fun value _ => ?_
      by_cases hempty : body.isEmpty
      · rw [if_pos hempty, List.isEmpty_iff.mp hempty]
        exact hrest (some (matching subject pending value))
      · rw [if_neg hempty]
        refine hbody.bind fun out hout => (hrest none).bind fun rest hrest => Yields.pure ?_
        rw [groupsOutline, casesShape, Shape.forgetSwitches_append, hout, hrest]

theorem defaultBody_outline (place : Place) : (default : Option (List Stmt)) →
    Yields (defaultBody place default) fun out =>
      allOutline (out.getD []) = (defaultShape default).forgetSwitches
  | none => by
      rw [defaultBody]
      exact Yields.pure rfl
  | some body => by
      rw [defaultBody]
      exact Yields.map (caseBody_outlines place body).inScope

theorem handlers_outline (place : Place) : (catches : List (CatchClause Stmt)) →
    Yields (handlers place catches) fun out =>
      handlersOutline out = (catchesShape catches).forgetSwitches
  | [] => by
      rw [handlers]
      exact Yields.pure rfl
  | ⟨exception, name, body, position⟩ :: rest => by
      have hbody := stmts_outlines place body
      rw [handlers]
      refine (Outlines.inScope (.after fun _ => hbody)).bind fun out hout =>
        (handlers_outline place rest).bind fun more hmore => Yields.pure ?_
      rw [handlersOutline, catchesShape, Shape.forgetSwitches_append, hout, hmore]

theorem cleanupBody_outline (place : Place) : (cleanup : Option (List Stmt)) →
    Yields (cleanupBody place cleanup) fun out =>
      allOutline (out.getD []) = (cleanupShape cleanup).forgetSwitches
  | none => by
      rw [cleanupBody]
      exact Yields.pure rfl
  | some body => by
      rw [cleanupBody]
      exact Yields.map (stmts_outlines place body).inScope

end

open Target (chunksOutline)

theorem fields_outlines (place : Place) (members : List Member) :
    Outlines (fields place members) .done := by
  induction members with
  | nil => exact .pure rfl
  | cons member members ih =>
      cases member with
      | field decl =>
          refine .after fun _ => .after fun _ => .behind ih fun out hout => .pure ?_
          rw [allOutline, hout]
          rfl
      | method decl => exact ih
      | nested decl => exact ih

theorem method_outline (place : Place) (decl : Method) : Yields (method place decl) fun out =>
    out.outline = (Shape.scope (allShape decl.body) .done).forgetSwitches := by
  have hbody := stmts_outlines { place with method := some (kindOf decl) } decl.body
  refine (Outlines.inScope (.after fun _ => hbody)).bind fun out hout => Yields.pure ?_
  rw [Target.Stmt.outline, hout]
  rfl

mutual

theorem classDecl_outline : (decl : ClassDecl) → Yields (classDecl decl) fun out =>
    out.outline = (ClassDecl.shape decl).forgetSwitches
  | ⟨_, name, members, _⟩ => by
      rw [classDecl]
      refine Yields.inScope ((Yields.trivial _).bind fun table _ => ?_)
      refine (fields_outlines _ members).bind fun front hfront =>
        (definitions_outlines _ members).bind fun out hout => Yields.pure ?_
      rw [Target.Stmt.outline, Target.allOutline_append, hfront, hout, ClassDecl.shape]
      rfl

theorem definitions_outlines (place : Place) :
    (members : List Member) → Outlines (definitions place members) (membersShape members)
  | [] => by
      rw [definitions, membersShape]
      exact .pure rfl
  | .field decl :: rest => by
      rw [definitions, membersShape]
      exact definitions_outlines place rest
  | .method decl :: rest => by
      rw [definitions]
      refine .behind (method_outline place decl) fun out hout =>
        .behind (definitions_outlines place rest) fun more hmore => .pure ?_
      rw [allOutline, hout, hmore, membersShape]
      rfl
  | .nested decl :: rest => by
      rw [definitions]
      refine .behind (classDecl_outline decl) fun out hout =>
        .behind (definitions_outlines place rest) fun more hmore => .pure ?_
      rw [allOutline, hout, hmore, membersShape, Shape.forgetSwitches_append]

end

theorem item_outline (i : Item) :
    Yields (item i) fun chunk => chunk.outline = i.shape.forgetSwitches := by
  cases i with
  | declaration decl => exact Yields.map (classDecl_outline decl)
  | statement s => exact Yields.map (stmt_outlines .outside false s)

theorem items_outline (is : List Item) :
    Yields (items is) fun chunks => chunksOutline chunks = (itemsShape is).forgetSwitches := by
  induction is with
  | nil => exact Yields.pure rfl
  | cons first rest ih =>
      refine (item_outline first).bind fun chunk hchunk => ih.bind fun chunks hchunks =>
        Yields.pure ?_
      rw [chunksOutline, hchunk, hchunks, itemsShape, Shape.forgetSwitches_append]

end Lowering

namespace Program

theorem toModule_outline (program : Program) (m : Target.Module) (h : program.toModule = .ok m) :
    m.outline = program.shape.forgetSwitches := by
  have hitems := Lowering.items_outline program.items .empty
  unfold toModule at h
  cases hout : (Lowering.items program.items).outcome .empty with
  | mk result table =>
      rw [hout] at h hitems
      cases result with
      | error error => cases h
      | ok chunks =>
          cases h
          exact hitems chunks table rfl

/-- The emitted breaks keep their targets exactly if every `break` but those that end the
statements of a label has a loop as its innermost loop or switch. Every other one is left as well,
and leaves the loop around its switch. -/
theorem breaks_keep_targets_iff (program : Program) (m : Target.Module)
    (h : program.toModule = .ok m) :
    m.outline = program.shape.forgetSwitches ∧
      m.outline.exits =
        (program.shape.keepTargets false).exits + program.shape.misplaced false ∧
      (m.outline = program.shape.keepTargets false ↔ program.shape.misplaced false = 0) := by
  have houtline := program.toModule_outline m h
  rw [houtline]
  exact ⟨rfl, program.shape.exits_forgetSwitches false,
    program.shape.forgetSwitches_eq_keepTargets_iff false⟩

/-- What follows from a check of a source's program and its module holds of them. -/
theorem exists_module {source : String} {Q : Program → Target.Module → Prop}
    (P : Program → Target.Module → Prop) [∀ program m, Decidable (P program m)]
    (h : (ofSource source).toOption.any (fun program =>
      program.toModule.toOption.any fun m => decide (P program m)) = true)
    (hPQ : ∀ program m, program.toModule = .ok m → P program m → Q program m) :
    ∃ program m, ofSource source = .ok program ∧ program.toModule = .ok m ∧ Q program m := by
  cases hsource : ofSource source with
  | error error =>
      rw [hsource] at h
      cases h
  | ok program =>
      rw [hsource] at h
      cases hmodule : program.toModule with
      | error error => simp [Except.toOption, hmodule] at h
      | ok m =>
          have hP : P program m := by simpa [Except.toOption, hmodule] using h
          exact ⟨program, m, rfl, hmodule, hPQ program m hmodule hP⟩

/-- The `break` behind the switch is kept, and the one that ends its label is not. -/
theorem breaks_keep_targets_behind_switch :
    ∃ program m,
      ofSource "int x = 1; while (x < 3) \x7b switch (x) \x7b case 1: break; \x7d break; \x7d" =
        .ok program ∧
      program.toModule = .ok m ∧ m.outline = program.shape.keepTargets false :=
  exists_module (fun program _ => program.shape.misplaced false = 0) (by decide +kernel)
    fun program m hmodule hnone => (breaks_keep_targets_iff program m hmodule).2.2.mpr hnone

/-- The `break` that ends a label from within a block leaves the loop around the switch. -/
theorem block_break_leaves_loop :
    ∃ program m,
      ofSource ("int x = 1; while (x < 3) \x7b switch (x) \x7b case 1: \x7b break; \x7d " ++
        "default: x = 5; \x7d x++; \x7d") = .ok program ∧
      program.toModule = .ok m ∧ m.outline ≠ program.shape.keepTargets false :=
  exists_module (fun program m => m.outline ≠ program.shape.keepTargets false)
    (by decide +kernel) fun _ _ _ hne => hne

end Program

end MiniJava
