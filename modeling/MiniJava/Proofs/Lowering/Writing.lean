import MiniJava.Proofs.Lowering.Emission

/-!
# What an emitter writes

An emitter writes the lines of what its source is lowered to, and fails where that cannot be
lowered. What it writes for a program is the text of the module that the program becomes.
-/

namespace MiniJava

open Target (Line)
open Target.Stmt (allLines allLines_append allLines_single lines alternativeLines handlerLines
  groupLines defaultLines cleanupLines memberLines insideLines)

namespace Emitting

variable {α : Type}

theorem effects_emits (place : Place) (level : Nat) (list : List Expr) :
    EmitsCode place level (Lowering.effects place list) (effects list) := by
  induction list with
  | nil => exact .pure rfl
  | cons first rest ih =>
      refine (Emits.lower (Lowering.effect · first)).bind fun out => ?_
      exact .emit_bind (ih.last fun more => allLines_append level out more)

theorem EmitsCode.round {place : Place} {level : Nat} {lowering : Lowering (List Target.Stmt)}
    {body : Emitting Unit} (h : EmitsCode place level lowering body) (update : List Expr) :
    EmitsCode place level (do return (← lowering) ++ (← Lowering.effects place update))
      (do body; effects update) :=
  h.bind fun out => (effects_emits place level update).last fun more =>
    allLines_append level out more

mutual

theorem stmt_emits (place : Place) (level : Nat) (shared : Bool) :
    (s : Stmt) → EmitsCode place level (Lowering.stmt place shared s) (stmt shared s)
  | .declare decl => by
      rw [Lowering.stmt, stmt]
      refine (Emits.lower (Lowering.initial · decl)).bind fun source => ?_
      refine (Emits.lower fun _ => Lowering.declare _ _ _).bind fun _ => ?_
      refine (Emits.lower (Lowering.reference · decl.name)).bind fun target => .emit ?_
      rw [allLines_single, lines]
      rfl
  | .expression e => by
      rw [Lowering.stmt, stmt]
      exact .write (Lowering.effect · e)
  | .block body => by
      have hbody := stmts_emits place level body
      rw [Lowering.stmt, stmt]
      split
      · exact hbody
      · exact hbody.inScope
  | .ifElse e thenBranch elseBranch => by
      have hthen := stmt_emits place (level + 1) true thenBranch
      have helse := alternative_emits place level elseBranch
      rw [Lowering.stmt, stmt]
      refine (Emits.value e).bind fun condition => ?_
      refine (hthen.clause _).bind fun body => helse.single fun rest => ?_
      rw [lines]
      rfl
  | .whileLoop e body => by
      have hbody := stmt_emits place (level + 1) true body
      rw [Lowering.stmt, stmt]
      refine (Emits.value e).bind fun condition => (hbody.clause _).single fun body => ?_
      rw [lines]
      rfl
  | .doWhile body e => by
      have hbody := stmt_emits place (level + 1) true body
      rw [Lowering.stmt, stmt]
      refine (Emits.clause _ ?_).single fun body => ?_
      · refine hbody.bind fun body => (Emits.value e).bind fun condition => ?_
        have hbreak : EmitsCode place (level + 1 + 1) (pure [.breaks]) (line "break") := .emit rfl
        refine (hbreak.clause _).const ?_
        rw [allLines_append, allLines_single, lines, alternativeLines]
        simp
      · rw [lines]
        rfl
  | .forLoop none e update body => by
      have hround := EmitsCode.round (stmt_emits place (level + 1) true body) update
      rw [Lowering.stmt, stmt]
      refine Emits.inScope ((Emits.lower (Lowering.loopCondition · e)).bind fun condition => ?_)
      refine (hround.clause _).single fun body => ?_
      rw [lines]
      rfl
  | .forLoop (some init) e update body => by
      have hinit := stmt_emits place level false init
      have hbody := stmt_emits place (level + 1) true body
      have hround := EmitsCode.round hbody update
      rw [Lowering.stmt, stmt]
      refine Emits.inScope ?_
      cases RangeLoop.detect? init e update body with
      | some loop =>
          refine (Emits.lower (Lowering.rangeBounds · loop)).bind fun ⟨start, stop⟩ => ?_
          refine (Emits.lower (Lowering.reference · loop.counter)).bind fun counter => ?_
          refine (hbody.clause _).single fun body => ?_
          rw [lines]
          rfl
      | none =>
          refine (Emits.lower fun _ => Lowering.refuseOverflow _).bind fun _ => ?_
          refine hinit.bind fun first => ?_
          refine (Emits.lower (Lowering.loopCondition · e)).bind fun condition => ?_
          refine (hround.clause _).last fun body => ?_
          rw [allLines_append, allLines_single, lines]
          simp
  | .switch scrutinee list default => by
      have hcases := cases_emits place level list
      have hdefault := otherwise_emits place level default
      rw [Lowering.stmt, stmt]
      refine (Emits.value scrutinee).bind fun subject => ?_
      refine (hcases subject false none).bind fun groups => (hdefault _).last fun rest => ?_
      exact Target.Stmt.allLines_chain level groups rest
  | .tryCatch body list cleanup => by
      have hbody := stmts_emits place (level + 1) body
      have hhandlers := handlers_emits place level list
      have hcleanup := cleanupClause_emits place level cleanup
      rw [Lowering.stmt, stmt]
      refine (hbody.clause _).bind fun body => hhandlers.bind fun handlers => ?_
      refine hcleanup.single fun last => ?_
      rw [Target.Stmt.lines_tryExcept]
      simp
  | .print kind args _ => by
      rw [Lowering.stmt, stmt]
      exact .write (Lowering.print · kind args)
  | .returns (some e) _ => by
      rw [Lowering.stmt, stmt]
      exact (Emits.value e).bind fun result => .emit rfl
  | .returns none _ | .breaks | .continues => by
      rw [Lowering.stmt, stmt]
      exact .emit rfl
  | .empty => by
      rw [Lowering.stmt, stmt]
      exact .pure rfl

theorem stmts_emits (place : Place) (level : Nat) :
    (body : List Stmt) → EmitsCode place level (Lowering.stmts place body) (stmts body)
  | [] => by
      rw [Lowering.stmts, stmts]
      exact .pure rfl
  | first :: rest => by
      have hfirst := stmt_emits place level false first
      have hrest := stmts_emits place level rest
      rw [Lowering.stmts, stmts]
      exact hfirst.bind fun out => hrest.last fun more =>
        allLines_append level out more

theorem alternative_emits (place : Place) (level : Nat) : (branch : Option Stmt) →
    Emits place level [] (alternativeLines level) (fun _ => ())
      (Lowering.alternative place branch) (alternative branch)
  | none => by
      rw [Lowering.alternative, alternative]
      exact .pure rfl
  | some branch => by
      have hbranch := stmt_emits place (level + 1) true branch
      cases branch with
      | ifElse e thenBranch elseBranch =>
          have hthen := stmt_emits place (level + 1) true thenBranch
          have helse := alternative_emits place level elseBranch
          rw [Lowering.alternative, alternative]
          refine (Emits.value e).bind fun condition => ?_
          refine (hthen.clause _).bind fun body => helse.last fun rest => ?_
          rw [alternativeLines]
          rfl
      | _ =>
          rw [Lowering.alternative, alternative]
          · exact (hbranch.clause _).last fun body => by rw [alternativeLines]; rfl
          · nofun
          · nofun

theorem caseBody_emits (place : Place) (level : Nat) :
    (body : List Stmt) → EmitsCode place level (Lowering.caseBody place body) (caseBody body)
  | [] => by
      rw [Lowering.caseBody, caseBody]
      exact .pure rfl
  | first :: rest => by
      have hfirst := stmt_emits place level false first
      have hrest := caseBody_emits place level rest
      by_cases hbreak : first = .breaks
      · rw [hbreak, Lowering.caseBody, caseBody]
        exact .pure rfl
      · rw [Lowering.caseBody, caseBody]
        · exact hfirst.bind fun out => hrest.last fun more =>
            allLines_append level out more
        · exact hbreak
        · exact hbreak

theorem cases_emits (place : Place) (level : Nat) : (list : List (SwitchCase Stmt)) →
    ∀ (subject : Target.Expr) (begun : Bool) (pending : Option Target.Expr),
      Emits place level [] (groupLines begun level) (fun groups => begun || !groups.isEmpty)
        (Lowering.groups place subject pending list) (cases subject begun pending list)
  | [], subject, begun, pending => by
      rw [Lowering.groups, cases]
      cases begun with
      | false => exact .pure rfl
      | true => exact .pure rfl
  | ⟨label, body⟩ :: rest, subject, begun, pending => by
      have hbody := caseBody_emits place (level + 1) body
      have hrest := cases_emits place level rest subject
      rw [Lowering.groups, cases]
      refine (Emits.value label).bind fun test => ?_
      split
      · exact hrest begun _
      · refine (hbody.clause _).bind fun out => ?_
        cases begun with
        | false => exact Emits.last (hrest true none) fun more => by rw [groupLines]; rfl
        | true => exact Emits.last (hrest true none) fun more => by rw [groupLines]; rfl

theorem otherwise_emits (place : Place) (level : Nat) : (default : Option (List Stmt)) →
    ∀ begun : Bool, Emits place level [] (defaultLines begun level) (fun _ => ())
      (Lowering.defaultBody place default) (otherwise begun default)
  | none, begun => by
      rw [Lowering.defaultBody, otherwise]
      exact .pure rfl
  | some body, begun => by
      rw [Lowering.defaultBody, otherwise]
      cases begun with
      | false =>
          exact (caseBody_emits place level body).inScope.last fun out => rfl
      | true =>
          exact ((caseBody_emits place (level + 1) body).clause _).last fun out => rfl

theorem handlers_emits (place : Place) (level : Nat) : (list : List (CatchClause Stmt)) →
    Emits place level [] (handlerLines level) (fun _ => ()) (Lowering.handlers place list)
      (handlers list)
  | [] => by
      rw [Lowering.handlers, handlers]
      exact .pure rfl
  | ⟨exception, name, body, position⟩ :: rest => by
      have hbody := stmts_emits place (level + 1) body
      have hrest := handlers_emits place level rest
      rw [Lowering.handlers, handlers]
      refine (Emits.clause _ ?_).bind fun out => hrest.last fun more => ?_
      · exact (Emits.lower fun _ => Lowering.declare _ _ _).bind fun _ => hbody
      · rw [handlerLines]
        rfl

theorem cleanupClause_emits (place : Place) (level : Nat) : (cleanup : Option (List Stmt)) →
    Emits place level [] (cleanupLines level) (fun _ => ()) (Lowering.cleanupBody place cleanup)
      (cleanupClause cleanup)
  | none => by
      rw [Lowering.cleanupBody, cleanupClause]
      exact .pure rfl
  | some body => by
      have hbody := stmts_emits place (level + 1) body
      rw [Lowering.cleanupBody, cleanupClause]
      exact (hbody.clause _).last fun out => rfl

end

theorem method_emits (place : Place) (level : Nat) (decl : Method) :
    Emits place level [] (lines level) (fun _ => ()) (Lowering.method place decl)
      (method decl) := by
  have hbody := stmts_emits { place with method := some (Lowering.kindOf decl) } (level + 1)
    decl.body
  rw [Lowering.method, method]
  cases hstatic : decl.isStatic with
  | false =>
      refine ((Emits.clause _ ?_).inMethod _).last fun out => ?_
      · exact (Emits.lower fun _ => Lowering.declareParams decl.params).bind fun _ => hbody
      · rw [lines]; rfl
  | true =>
      refine Emits.emit_bind (((Emits.clause _ ?_).inMethod _).last fun out => ?_)
      · exact (Emits.lower fun _ => Lowering.declareParams decl.params).bind fun _ => hbody
      · rw [lines]; rfl

theorem fields_emits (place : Place) (level : Nat) (members : List Member) :
    EmitsCode place level (Lowering.fields place members) (fields members) := by
  induction members with
  | nil => exact .pure rfl
  | cons member rest ih =>
      cases member with
      | field decl =>
          refine (Emits.lower (Lowering.initial · decl)).bind fun source => .emit_bind ?_
          refine (Emits.lower fun _ => Lowering.declare _ _ _).bind fun _ => ih.last fun more => ?_
          rw [allLines, lines]
          rfl
      | method decl => exact ih
      | nested decl => exact ih

theorem fields_yields (place : Place) (members : List Member) :
    Lowering.Yields (Lowering.fields place members) fun out =>
      ∀ s ∈ out, s.isDefinition = false := by
  induction members with
  | nil => exact .pure nofun
  | cons member rest ih =>
      cases member with
      | field decl =>
          refine (Lowering.Yields.trivial _).bind fun _ _ => ?_
          refine (Lowering.Yields.trivial _).bind fun _ _ => ih.bind fun more hmore => .pure ?_
          exact List.forall_mem_cons.mpr ⟨rfl, hmore⟩
      | method decl => exact ih
      | nested decl => exact ih

theorem method_yields (place : Place) (decl : Method) :
    Lowering.Yields (Lowering.method place decl) fun out => out.isDefinition = true :=
  (Lowering.Yields.trivial _).bind fun _ _ => .pure rfl

theorem class_yields (decl : ClassDecl) :
    Lowering.Yields (Lowering.classDecl decl) fun out =>
      ∃ body, out = .classDef decl.name body := by
  obtain ⟨modifiers, name, members, position⟩ := decl
  rw [Lowering.classDecl]
  refine Lowering.Yields.inScope ((Lowering.Yields.trivial _).bind fun _ _ => ?_)
  refine (Lowering.Yields.trivial _).bind fun _ _ => (Lowering.Yields.trivial _).bind fun _ _ => ?_
  exact .pure ⟨_, rfl⟩

def EmitsMembers (place : Place) (level start : Nat) (lowering : Lowering (List Target.Stmt))
    (action : Emitting Unit) : Prop :=
  ∀ emitter : Emitter, emitter.place = place → emitter.level = level → start ≤ emitter.size →
    Emitted emitter [] (memberLines (decide (start < emitter.size)) level) (fun _ => ())
      (lowering.outcome emitter.symbols) (action.outcome emitter)

theorem outcome_separate_bind (start : Nat) (next : Unit → Emitting α) (emitter : Emitter) :
    (separate start >>= next).outcome emitter = (next ()).outcome
      (emitter.behind (if start < emitter.size then [.blank] else []) emitter.symbols) := by
  have hseparate : (separate start).outcome emitter =
      (if start < emitter.size then blank else pure ()).outcome emitter := rfl
  rw [outcome_bind, hseparate]
  by_cases hstart : start < emitter.size
  · rw [if_pos hstart, if_pos hstart]
    rfl
  · rw [if_neg hstart, if_neg hstart, Emitter.behind_nil]
    rfl

theorem EmitsMembers.cons {place : Place} {level start : Nat} {lowering : Lowering Target.Stmt}
    {lowered : Lowering (List Target.Stmt)} {action next : Emitting Unit}
    (h : Emits place level [] (lines level) (fun _ => ()) lowering action)
    (hyields : Lowering.Yields lowering fun out => out.isDefinition = true)
    (hnext : EmitsMembers place level start lowered next) :
    EmitsMembers place level start (do return (← lowering) :: (← lowered))
      (do separate start; action; next) := by
  intro emitter hplace hlevel hstart
  rw [outcome_separate_bind]
  generalize hfront : (if start < emitter.size then [Line.blank] else []) = front
  have hfirst := h (emitter.behind front emitter.symbols) hplace hlevel
  refine Emitted.ahead (hfirst.bind fun out after hout => ?_)
  have hbegun := Nat.le_trans hstart (emitter.size_le_behind front emitter.symbols)
  have hwritten := ((emitter.behind front emitter.symbols).size_lt_behind_iff _ after).mpr
    (Target.Stmt.lines_ne_nil level out)
  have hsize := Nat.lt_of_le_of_lt hbegun hwritten
  have hrest := hnext ((emitter.behind front emitter.symbols).behind (lines level out) after)
    hplace hlevel (Nat.le_of_lt hsize)
  rw [decide_eq_true hsize] at hrest
  refine hrest.last fun more => ?_
  rw [memberLines, hyields _ _ _ hout, Bool.and_true, Target.Stmt.memberLines_true, ← hfront]
  simp

/-- The fields of a class, and then its methods and classes. -/
theorem classBody_emits {place : Place} {level : Nat} {members : List Member} (name : String)
    (h : ∀ start, EmitsMembers place level start (Lowering.definitions place members)
      (definitions start members)) :
    Emits place level [] (insideLines level) (fun _ => ())
      (do
        let fields ← Lowering.fields place members
        return .classDef name (fields ++ (← Lowering.definitions place members)))
      (do
        let start := (← get).size
        fields members
        definitions start members) := by
  intro emitter hplace hlevel
  have hfields : Emits place level [] (memberLines false level) (fun _ => ())
      (Lowering.fields place members) (fields members) :=
    (fields_emits place level members).congr (fields_yields place members)
      fun out hout => Target.Stmt.memberLines_false hout level
  change Emitted _ _ _ _ _ ((fields members >>= fun _ =>
    definitions emitter.size members).outcome emitter)
  refine (hfields emitter hplace hlevel).bind fun out table _ => ?_
  have hrest := h emitter.size (emitter.behind (memberLines false level out) table) hplace hlevel
    (emitter.size_le_behind _ _)
  have hbegun : decide (emitter.size < (emitter.behind (memberLines false level out) table).size) =
      !out.isEmpty := by
    rw [Bool.eq_iff_iff, decide_eq_true_iff, Emitter.size_lt_behind_iff, ne_eq,
      Target.Stmt.memberLines_eq_nil_iff]
    simp
  rw [hbegun] at hrest
  refine hrest.last fun more => ?_
  rw [insideLines, Target.Stmt.memberLines_append, List.nil_append]

mutual

theorem class_emits (place : Place) (level : Nat) : (decl : ClassDecl) →
    Emits place level [] (lines level) (fun _ => ()) (Lowering.classDecl decl) (classDecl decl)
  | ⟨modifiers, name, members, position⟩ => by
      have hbody scope := (classBody_emits name
        (definitions_emits ⟨some ⟨name, scope⟩, none⟩ (level + 1) members)).orPass
      have hinside := (Emits.inClass place.enclosing name hbody).inScope.deeper.inMethod none
      have hyields := class_yields ⟨modifiers, name, members, position⟩
      rw [Lowering.classDecl] at hyields ⊢
      rw [classDecl]
      refine (Emits.emit_bind (hinside.behind fun _ => rfl)).congr hyields ?_
      rintro _ ⟨body, rfl⟩
      rw [lines, Target.Stmt.classSuite_eq]
      rfl

theorem definitions_emits (place : Place) (level : Nat) : (members : List Member) →
    ∀ start, EmitsMembers place level start (Lowering.definitions place members)
      (definitions start members)
  | [], start => by
      rw [Lowering.definitions, definitions]
      intro emitter hplace hlevel _
      exact Emits.pure (by rw [memberLines]) emitter hplace hlevel
  | .field _ :: rest, start => by
      rw [Lowering.definitions, definitions]
      exact definitions_emits place level rest start
  | .method decl :: rest, start => by
      have hrest := definitions_emits place level rest start
      rw [Lowering.definitions, definitions]
      exact .cons (method_emits place level decl) (method_yields place decl) hrest
  | .nested decl :: rest, start => by
      have hclass := class_emits place level decl
      have hrest := definitions_emits place level rest start
      rw [Lowering.definitions, definitions]
      refine .cons hclass ((class_yields decl).mono ?_) hrest
      rintro _ ⟨body, rfl⟩
      rfl

end

theorem item_emits (i : Item) : Emits .outside 0 [] Target.Chunk.lines (fun _ => ())
    (Lowering.item i) (item i) := by
  cases i with
  | declaration decl => exact (class_emits .outside 0 decl).last fun _ => rfl
  | statement s => exact (stmt_emits .outside 0 false s).last fun _ => rfl

theorem item_yields (i : Item) :
    (Lowering.item i).Yields fun chunk => chunk.isDefinition = i.isClass := by
  cases i with
  | declaration decl => exact (Lowering.Yields.trivial _).bind fun _ _ => .pure rfl
  | statement s => exact (Lowering.Yields.trivial _).bind fun _ _ => .pure rfl

def chunkLines : Option Bool → List Target.Chunk → List Line
  | none => Target.Module.chunkLines
  | some afterClass => Target.Module.linesAfter afterClass

theorem chunkLines_cons (afterClass : Option Bool) (chunk : Target.Chunk)
    (rest : List Target.Chunk) : chunkLines afterClass (chunk :: rest) =
      (if afterClass.any (chunk.isDefinition || ·) then Target.Module.gap else []) ++ chunk.lines ++
        chunkLines (some chunk.isDefinition) rest := by
  cases afterClass <;> rfl

theorem items_emits (list : List Item) (afterClass : Option Bool) :
    Emits .outside 0 [] (chunkLines afterClass) (fun _ => ()) (Lowering.items list)
      (items afterClass list) := by
  induction list generalizing afterClass with
  | nil => cases afterClass <;> exact .pure rfl
  | cons first rest ih =>
      have hitems (front : List Line)
          (hfront : front = if afterClass.any (first.isClass || ·) then Target.Module.gap else []) :
          Emits .outside 0 front (chunkLines afterClass) (fun _ => ())
            (Lowering.items (first :: rest))
            (do item first; items (some first.isClass) rest) := by
        refine (item_emits first).bind_yields (item_yields first) fun chunk hchunk => ?_
        refine (ih (some first.isClass)).last fun more => ?_
        rw [chunkLines_cons, hchunk, hfront]
      rw [items]
      split
      · next h => exact .emit_bind (hitems _ (if_pos h).symm)
      · next h => exact hitems [] (if_neg h).symm

theorem program_emits (source : Program) :
    Emits .outside 0 []
      (fun chunks => (Target.Module.mk chunks (source.entryClass?.map ClassBody.name)).lines)
      (fun _ => ()) (Lowering.items source.items) (program source) := by
  rw [← bind_pure (Lowering.items source.items), program]
  refine (items_emits source.items none).bind fun chunks => ?_
  cases source.entryClass? with
  | none => exact .pure (List.append_nil _)
  | some decl =>
      have hcall : Emits .outside 0 []
          (fun _ : List Target.Chunk => [⟨1, decl.name ++ ".main([])"⟩]) (fun _ => ())
          (pure chunks) (deeper (line (decl.name ++ ".main([])"))) :=
        .deeper (.emit rfl)
      refine .emit_bind (.emit_bind (hcall.const ?_))
      simp [Target.Module.lines, Target.Module.entryLines, chunkLines]

end Emitting

/-- An emitter writes the text of a program, or comes upon the same construct that cannot be
lowered. -/
theorem Program.emitted_eq (source : Program) : source.emitted = source.toPython := by
  have h := Emitting.program_emits source .start rfl rfl
  have hstart : Emitter.start.symbols = .empty := rfl
  rw [hstart] at h
  rw [emitted, toPython, toModule]
  generalize (Lowering.items source.items).outcome .empty = low at h ⊢
  generalize (Emitting.program source).outcome .start = emitted at h ⊢
  cases h with
  | failed => rfl
  | @done chunks table more hmore =>
      have htext : (Emitter.start.behind more table).text =
          (Target.Module.mk chunks (source.entryClass?.map ClassBody.name)).toText := by
        rw [Target.Module.toText, hmore, List.nil_append]
        exact String.empty_append
      exact congrArg Except.ok htext

end MiniJava
