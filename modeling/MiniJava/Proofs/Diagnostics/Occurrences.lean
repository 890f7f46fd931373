import MiniJava.Proofs.Diagnostics.Meanings
import MiniJava.Proofs.Scope.Nest

/-!
# Where names occur

The occurrences of the names that reach the emitted text, in the order of the emitted text, each
with the classes and the method around it and with the declarations that the checker has there. What
they mean is what the checker's walk says, and inside a method each of them sees the scopes of the
classes around it.
-/

namespace MiniJava

open SymbolTable (Extends Nest)

structure Surroundings where
  classes : List ClassDecl
  method : Option MethodKind

namespace Surroundings

def outside : Surroundings := ⟨[], none⟩

/-- The fields of the innermost class are in the scope that has the number of the classes, as the
outermost scope is number zero. -/
def place (around : Surroundings) : Place :=
  ⟨around.classes.head?.map fun decl => ⟨decl.name, around.classes.length⟩, around.method⟩

end Surroundings

structure Occurrence where
  around : Surroundings
  symbols : SymbolTable
  name : String

namespace Occurrence

def meaning (occurrence : Occurrence) : Meaning :=
  occurrence.around.place.meaning occurrence.symbols occurrence.name

def InClasses (occurrence : Occurrence) : Prop :=
  ∃ scopes, Nest scopes occurrence.around.classes ∧ scopes <:+ occurrence.symbols.bare.scopes

end Occurrence

namespace Inspection

variable (around : Surroundings)

def occurring (inspection : Inspection) (names : List String) : List Occurrence :=
  names.map (Occurrence.mk around inspection.symbols)

mutual

def occurrences (expected : Option ValueType) (inspection : Inspection) : Stmt → List Occurrence
  | .declare decl =>
    ⟨around, (inspection.stmt expected (.declare decl)).symbols, decl.name⟩ ::
      inspection.occurring around (namesIn decl.init.toList)
  | .expression e => inspection.occurring around e.names
  | .block body => inspection.enter.bodyOccurrences expected body
  | .ifElse e thenBranch elseBranch =>
    inspection.occurring around e.names ++
      (inspection.condition .ifElse e).occurrences expected thenBranch ++
      ((inspection.condition .ifElse e).stmt expected thenBranch).elseOccurrences expected
        elseBranch
  | .whileLoop e body =>
    inspection.occurring around e.names ++
      (inspection.condition .whileLoop e).occurrences expected body
  | .doWhile body e =>
    inspection.occurrences expected body ++
      (inspection.stmt expected body).occurring around e.names
  | .forLoop none e update body =>
    let tested := inspection.enter.forCondition e
    inspection.enter.occurring around (namesIn e.toList) ++
      ((tested.exprs update).occurrences expected body ++
        tested.occurring around (namesIn update))
  | .forLoop (some init) e update body =>
    let begun := inspection.enter.stmt expected init
    let tested := begun.forCondition e
    match RangeLoop.detect? init e update body with
    | some loop =>
      ⟨around, begun.symbols, loop.counter⟩ ::
        inspection.enter.occurring around loop.start.names ++
        begun.occurring around loop.stop.names ++ (tested.exprs update).occurrences expected body
    | none =>
      inspection.enter.occurrences expected init ++
        (begun.occurring around (namesIn e.toList) ++
          ((tested.exprs update).occurrences expected body ++
            tested.occurring around (namesIn update)))
  | .switch scrutinee cases default =>
    let entered := (inspection.expr scrutinee).after.enter
    entered.labelOccurrences expected (inspection.occurring around scrutinee.names) [] cases ++
      (entered.cases expected cases).defaultOccurrences expected default
  | .tryCatch body catches cleanup =>
    let tried := (inspection.enter.stmts expected body).leave
    inspection.enter.bodyOccurrences expected body ++ tried.catchOccurrences expected catches ++
      (tried.catches expected catches).cleanupOccurrences expected cleanup
  | .print kind args _ => inspection.occurring around (namesIn (kind.shown args))
  | .returns value _ => inspection.occurring around (namesIn value.toList)
  | .breaks | .continues | .empty => []

def bodyOccurrences (expected : Option ValueType) (inspection : Inspection) :
    List Stmt → List Occurrence
  | [] => []
  | first :: rest =>
    inspection.occurrences expected first ++
      (inspection.stmt expected first).bodyOccurrences expected rest

def elseOccurrences (expected : Option ValueType) (inspection : Inspection) :
    Option Stmt → List Occurrence
  | none => []
  | some branch => inspection.occurrences expected branch

def caseOccurrences (expected : Option ValueType) (inspection : Inspection) :
    List Stmt → List Occurrence
  | [] => []
  | .breaks :: _ => []
  | first :: rest =>
    inspection.occurrences expected first ++
      (inspection.stmt expected first).caseOccurrences expected rest

def labelOccurrences (expected : Option ValueType) (subject pending : List Occurrence)
    (inspection : Inspection) : List (SwitchCase Stmt) → List Occurrence
  | [] => []
  | ⟨label, body⟩ :: rest =>
    let tests := pending ++ (subject ++ inspection.occurring around label.names)
    let compared := (inspection.expr label).after
    let checked := compared.stmts expected body
    if body.isEmpty then checked.labelOccurrences expected subject tests rest
    else
      tests ++ compared.caseOccurrences expected body ++
        checked.labelOccurrences expected subject [] rest

def defaultOccurrences (expected : Option ValueType) (inspection : Inspection) :
    Option (List Stmt) → List Occurrence
  | none => []
  | some body => inspection.caseOccurrences expected body

def catchOccurrences (expected : Option ValueType) (inspection : Inspection) :
    List (CatchClause Stmt) → List Occurrence
  | [] => []
  | ⟨exception, name, body, position⟩ :: rest =>
    let caught := inspection.enter.bound exception name position
    caught.bodyOccurrences expected body ++
      (caught.stmts expected body).leave.catchOccurrences expected rest

def cleanupOccurrences (expected : Option ValueType) (inspection : Inspection) :
    Option (List Stmt) → List Occurrence
  | none => []
  | some body => inspection.enter.bodyOccurrences expected body

end

def methodOccurrences (classes : List ClassDecl) (inspection : Inspection) (decl : Method) :
    List Occurrence :=
  let expected := (decl.returnType.map ValueType.ofTypeName).getD .void
  let bound := decl.params.foldl
    (fun inspection param => inspection.bound param.type param.name param.position)
    inspection.enter
  bound.bodyOccurrences ⟨classes, some (Lowering.kindOf decl)⟩ (some expected) decl.body

def fieldOccurrences (inspection : Inspection) : List Member → List Occurrence
  | [] => []
  | .field decl :: rest =>
    let declared := inspection.declaration decl true
    ⟨around, declared.symbols, decl.name⟩ ::
      inspection.occurring around (namesIn decl.init.toList) ++ declared.fieldOccurrences rest
  | .method _ :: rest => inspection.fieldOccurrences rest
  | .nested _ :: rest => inspection.fieldOccurrences rest

mutual

def classOccurrences (outer : List ClassDecl) (inspection : Inspection) :
    ClassDecl → List Occurrence
  | ⟨modifiers, name, members, position⟩ =>
    let classes := ⟨modifiers, name, members, position⟩ :: outer
    inspection.enter.fieldOccurrences ⟨classes, none⟩ members ++
      (inspection.enter.fields members).memberOccurrences classes members

def memberOccurrences (classes : List ClassDecl) (inspection : Inspection) :
    List Member → List Occurrence
  | [] => []
  | .field _ :: rest => inspection.memberOccurrences classes rest
  | .method decl :: rest =>
    inspection.methodOccurrences classes decl ++
      (inspection.method decl).memberOccurrences classes rest
  | .nested decl :: rest =>
    inspection.classOccurrences classes decl ++
      (inspection.classDecl decl).memberOccurrences classes rest

end

def itemOccurrences (inspection : Inspection) : Item → List Occurrence
  | .declaration decl => inspection.classOccurrences [] decl
  | .statement s => inspection.occurrences .outside none s

def itemsOccurrences (inspection : Inspection) : List Item → List Occurrence
  | [] => []
  | first :: rest =>
    inspection.itemOccurrences first ++ (inspection.item first).itemsOccurrences rest

end Inspection

/-- The names that reach the emitted text. -/
def Program.occurrences (program : Program) : List Occurrence :=
  Inspection.start.itemsOccurrences program.items

/-- The occurrences have these meanings, and each of them sees the scopes around the innermost one
of the table. -/
structure Sees (around : Surroundings) (table : SymbolTable) (occurrences : List Occurrence)
    (meanings : List Meaning) : Prop where
  meanings_eq : meanings = occurrences.map Occurrence.meaning
  within : ∀ occurrence ∈ occurrences, occurrence.around = around ∧
    table.bare.enclosing <:+ occurrence.symbols.bare.enclosing

namespace Sees

variable {around : Surroundings} {table after : SymbolTable} {first rest : List Occurrence}
  {firstMeanings restMeanings : List Meaning} {names : List String}

theorem nil : Sees around table [] [] := ⟨rfl, nofun⟩

theorem append (hfirst : Sees around table first firstMeanings)
    (hrest : Sees around table rest restMeanings) :
    Sees around table (first ++ rest) (firstMeanings ++ restMeanings) where
  meanings_eq := by rw [hfirst.meanings_eq, hrest.meanings_eq, List.map_append]
  within := List.forall_mem_append.mpr ⟨hfirst.within, hrest.within⟩

theorem one (around : Surroundings) (table : SymbolTable) (name : String) :
    Sees around table [⟨around, table, name⟩] [around.place.meaning table name] :=
  ⟨rfl, List.forall_mem_singleton.mpr ⟨rfl, List.suffix_refl _⟩⟩

/-- Behind a statement the scopes around the innermost one are the same. -/
theorem behind (h : Sees around after first firstMeanings) (hafter : table.Extends names after) :
    Sees around table first firstMeanings := by
  obtain ⟨front, -, hbare⟩ := hafter
  refine ⟨h.meanings_eq, fun occurrence hmem => ?_⟩
  obtain ⟨haround, hwithin⟩ := h.within occurrence hmem
  rw [hbare] at hwithin
  exact ⟨haround, hwithin⟩

theorem behind_bare (h : Sees around after first firstMeanings) (hafter : after.bare = table.bare) :
    Sees around table first firstMeanings :=
  h.behind (Extends.of_bare hafter : table.Extends [] after)

theorem enter (h : Sees around table.enter first firstMeanings) :
    Sees around table first firstMeanings := by
  refine ⟨h.meanings_eq, fun occurrence hmem => ?_⟩
  obtain ⟨haround, hwithin⟩ := h.within occurrence hmem
  exact ⟨haround, (List.suffix_cons _ _).trans hwithin⟩

end Sees

namespace Inspection

variable (around : Surroundings)

theorem sees_names (inspection : Inspection) (names : List String) :
    Sees around inspection.symbols (inspection.occurring around names)
      (around.place.meanings inspection.symbols names) where
  meanings_eq := by
    rw [occurring, List.map_map]
    rfl
  within := by
    intro occurrence hmem
    obtain ⟨name, -, rfl⟩ := List.mem_map.mp hmem
    exact ⟨rfl, List.suffix_refl _⟩

theorem sees_expr (inspection : Inspection) (e : Expr) :
    Sees around inspection.symbols (inspection.occurring around e.names)
      (inspection.exprMeanings around.place e) := by
  rw [exprMeanings_eq]
  exact inspection.sees_names around e.names

theorem sees_exprs (inspection : Inspection) (list : List Expr) :
    Sees around inspection.symbols (inspection.occurring around (namesIn list))
      (inspection.exprsMeanings around.place list) := by
  rw [exprsMeanings_eq]
  exact inspection.sees_names around (namesIn list)

/-- The condition, the body and the updates of a `for` loop that does not count. -/
theorem sees_rounds {e : Option Expr} {update : List Expr} {c : Inspection}
    {body : List Occurrence} {bodyMeanings : List Meaning}
    (hbody : Sees around ((c.forCondition e).exprs update).symbols body bodyMeanings) :
    Sees around c.symbols
      (c.occurring around (namesIn e.toList) ++
        (body ++ (c.forCondition e).occurring around (namesIn update)))
      (c.exprsMeanings around.place e.toList ++
        (bodyMeanings ++ (c.forCondition e).exprsMeanings around.place update)) :=
  (c.sees_exprs around e.toList).append ((hbody.behind_bare (c.header_bare e update)).append
    ((sees_exprs around _ update).behind_bare (c.forCondition_bare e)))

theorem bound_extends (c : Inspection) (type : TypeName) (name : String) (position : Position) :
    c.symbols.Extends [name] (c.bound type name position).symbols := by
  rw [bound, symbols_declare]
  exact .bring ..

mutual

/-- The induction carries the scopes around the one that a statement stands in, since the statements
in front of it only add to that one. -/
theorem stmt_sees (expected : Option ValueType) : (s : Stmt) → ∀ c : Inspection,
    Sees around c.symbols (c.occurrences around expected s) (c.meanings around.place expected s)
  | .declare decl, c => by
      rw [occurrences, meanings]
      exact ((Sees.one around _ decl.name).behind (stmt_extends expected (.declare decl) c)).append
        (c.sees_exprs around decl.init.toList)
  | .expression e, c => by
      rw [occurrences, meanings]
      exact c.sees_expr around e
  | .block body, c => by
      rw [occurrences, meanings]
      exact (stmts_sees expected body c.enter).enter
  | .ifElse e thenBranch elseBranch, c => by
      have hthen := stmt_sees expected thenBranch (c.condition .ifElse e)
      have helse := else_sees expected elseBranch
        ((c.condition .ifElse e).stmt expected thenBranch)
      rw [occurrences, meanings]
      exact ((c.sees_expr around e).append (hthen.behind_bare (c.condition_bare .ifElse e))).append
        ((helse.behind (stmt_extends expected thenBranch _)).behind_bare
          (c.condition_bare .ifElse e))
  | .whileLoop e body, c => by
      have hbody := stmt_sees expected body (c.condition .whileLoop e)
      rw [occurrences, meanings]
      exact (c.sees_expr around e).append (hbody.behind_bare (c.condition_bare .whileLoop e))
  | .doWhile body e, c => by
      rw [occurrences, meanings]
      exact (stmt_sees expected body c).append
        ((sees_expr around _ e).behind (stmt_extends expected body c))
  | .forLoop none e update body, c => by
      have hbody := stmt_sees expected body ((c.enter.forCondition e).exprs update)
      rw [occurrences, meanings]
      exact (sees_rounds around (c := c.enter) hbody).enter
  | .forLoop (some init) e update body, c => by
      have hbegun := stmt_extends expected init c.enter
      have hbody := stmt_sees expected body
        (((c.enter.stmt expected init).forCondition e).exprs update)
      rw [occurrences, meanings]
      refine Sees.enter ?_
      cases RangeLoop.detect? init e update body with
      | none =>
          have hrounds := (sees_rounds around hbody).behind hbegun
          exact (stmt_sees expected init c.enter).append hrounds
      | some loop =>
          have hcounter := (Sees.one around _ loop.counter).behind hbegun
          have hstop := (sees_expr around _ loop.stop).behind hbegun
          have hround := (hbody.behind_bare (header_bare _ e update)).behind hbegun
          exact ((hcounter.append (c.enter.sees_expr around loop.start)).append hstop).append hround
  | .switch scrutinee cases default, c => by
      have hcases := cases_extends expected cases (c.expr scrutinee).after.enter
      have hentered : (c.expr scrutinee).after.symbols.enter.Extends []
          (c.expr scrutinee).after.enter.symbols := .refl _
      have hsubject := (c.sees_expr around scrutinee).behind_bare (expr_bare scrutinee c).symm
      have hlabels := labels_sees expected cases _ hentered hsubject .nil
      have hdefault := default_sees expected default
        ((c.expr scrutinee).after.enter.cases expected cases)
      rw [occurrences, meanings]
      exact (hlabels.append (hdefault.behind hcases).enter).behind_bare (expr_bare scrutinee c)
  | .tryCatch body catches cleanup, c => by
      have htried := (stmts_extends expected body c.enter).leave
      have hcaught := catches_bare expected catches (c.enter.stmts expected body).leave
      have hcatches := catches_sees expected catches (c.enter.stmts expected body).leave
      have hcleanup := cleanup_sees expected cleanup
        ((c.enter.stmts expected body).leave.catches expected catches)
      rw [occurrences, meanings]
      exact ((stmts_sees expected body c.enter).enter.append (hcatches.behind_bare htried)).append
        (hcleanup.behind_bare (hcaught.trans htried))
  | .print kind args position, c => by
      rw [occurrences, meanings]
      exact c.sees_exprs around _
  | .returns value position, c => by
      rw [occurrences, meanings]
      exact c.sees_exprs around _
  | .breaks, c | .continues, c | .empty, c => by
      rw [occurrences, meanings]
      exact .nil

theorem stmts_sees (expected : Option ValueType) : (body : List Stmt) → ∀ c : Inspection,
    Sees around c.symbols (c.bodyOccurrences around expected body)
      (c.bodyMeanings around.place expected body)
  | [], c => by
      rw [bodyOccurrences, bodyMeanings]
      exact .nil
  | first :: rest, c => by
      rw [bodyOccurrences, bodyMeanings]
      exact (stmt_sees expected first c).append
        ((stmts_sees expected rest _).behind (stmt_extends expected first c))

theorem else_sees (expected : Option ValueType) : (branch : Option Stmt) → ∀ c : Inspection,
    Sees around c.symbols (c.elseOccurrences around expected branch)
      (c.elseMeanings around.place expected branch)
  | none, c => by
      rw [elseOccurrences, elseMeanings]
      exact .nil
  | some branch, c => by
      rw [elseOccurrences, elseMeanings]
      exact stmt_sees expected branch c

theorem case_sees (expected : Option ValueType) : (body : List Stmt) → ∀ c : Inspection,
    Sees around c.symbols (c.caseOccurrences around expected body)
      (c.caseMeanings around.place expected body)
  | [], c => by
      rw [caseOccurrences, caseMeanings]
      exact .nil
  | first :: rest, c => by
      by_cases hbreak : first = .breaks
      · rw [hbreak, caseOccurrences, caseMeanings]
        exact .nil
      · rw [caseOccurrences, caseMeanings]
        · exact (stmt_sees expected first c).append
            ((case_sees expected rest _).behind (stmt_extends expected first c))
        · exact hbreak
        · exact hbreak

/-- The subject of a switch stands in front of the scope that the labels share. -/
theorem labels_sees (expected : Option ValueType) : (list : List (SwitchCase Stmt)) →
    ∀ (c : Inspection) {names : List String} {table : SymbolTable}
      {subject pending : List Occurrence} {subjectMeanings pendingMeanings : List Meaning},
      table.enter.Extends names c.symbols → Sees around table subject subjectMeanings →
      Sees around table pending pendingMeanings →
        Sees around table (c.labelOccurrences around expected subject pending list)
          (c.labelMeanings around.place expected subjectMeanings pendingMeanings list)
  | [], c, names, table, subject, pending, subjectMeanings, pendingMeanings, hscope, hsubject,
      hpending => by
      rw [labelOccurrences, labelMeanings]
      exact .nil
  | ⟨label, body⟩ :: rest, c, names, table, subject, pending, subjectMeanings, pendingMeanings,
      hscope, hsubject, hpending => by
      have hlabel := (c.sees_expr around label).behind hscope
      have htests := hpending.append (hsubject.append hlabel.enter)
      have hcompared := hscope.behind (expr_bare label c)
      have hchecked := hcompared.trans (stmts_extends expected body _)
      have hcase := (case_sees expected body (c.expr label).after).behind hcompared
      rw [labelOccurrences, labelMeanings]
      split
      · exact labels_sees expected rest _ hchecked hsubject htests
      · exact (htests.append hcase.enter).append
          (labels_sees expected rest _ hchecked hsubject .nil)

theorem default_sees (expected : Option ValueType) : (default : Option (List Stmt)) →
    ∀ c : Inspection, Sees around c.symbols (c.defaultOccurrences around expected default)
      (c.defaultMeanings around.place expected default)
  | none, c => by
      rw [defaultOccurrences, defaultMeanings]
      exact .nil
  | some body, c => by
      rw [defaultOccurrences, defaultMeanings]
      exact case_sees expected body c

theorem catches_sees (expected : Option ValueType) : (list : List (CatchClause Stmt)) →
    ∀ c : Inspection, Sees around c.symbols (c.catchOccurrences around expected list)
      (c.catchMeanings around.place expected list)
  | [], c => by
      rw [catchOccurrences, catchMeanings]
      exact .nil
  | ⟨exception, name, body, position⟩ :: rest, c => by
      have hbound := c.enter.bound_extends exception name position
      have hcaught := (hbound.trans (stmts_extends expected body _)).leave
      have hbody := (stmts_sees expected body (c.enter.bound exception name position)).behind hbound
      rw [catchOccurrences, catchMeanings]
      exact hbody.enter.append ((catches_sees expected rest _).behind_bare hcaught)

theorem cleanup_sees (expected : Option ValueType) : (cleanup : Option (List Stmt)) →
    ∀ c : Inspection, Sees around c.symbols (c.cleanupOccurrences around expected cleanup)
      (c.cleanupMeanings around.place expected cleanup)
  | none, c => by
      rw [cleanupOccurrences, cleanupMeanings]
      exact .nil
  | some body, c => by
      rw [cleanupOccurrences, cleanupMeanings]
      exact (stmts_sees expected body c.enter).enter

end

/-- The scope of a class has the fields of the class. -/
theorem lookup_fields (members : List Member) (c : Inspection) (name : String) :
    (c.fields members).symbols.bare.current.lookup name =
      (c.symbols.bare.current.lookup name).or
        ((fieldNamed? name members).map VarDecl.bareSymbol) := by
  induction members generalizing c with
  | nil => exact (Option.or_none ..).symm
  | cons member rest ih =>
      cases member with
      | field decl =>
          rw [fields, ih, c.declaration_bare decl true false true, SymbolTable.bare_bring,
            SymbolTable.lookup_bring, fieldNamed?]
          by_cases hname : name = decl.name
          · rw [if_pos hname, if_pos hname.symm, hname]
            cases c.symbols.bare.current.lookup decl.name <;> rfl
          · rw [if_neg hname, if_neg (Ne.symm hname)]
      | method decl => exact ih c
      | nested decl => exact ih c

theorem nest_fields {classes : List ClassDecl} {c : Inspection}
    (hnest : Nest c.symbols.bare.scopes classes) (decl : ClassDecl) :
    Nest (c.enter.fields decl.members).symbols.bare.scopes (decl :: classes) := by
  obtain ⟨names, front, -, hfields⟩ := fields_extends decl.members c.enter
  have henclosing : (c.enter.fields decl.members).symbols.bare.enclosing = c.symbols.bare.scopes :=
    congrArg SymbolTable.enclosing hfields
  rw [SymbolTable.scopes, henclosing]
  exact .within (lookup_fields decl.members c.enter) hnest

end Inspection

/-- The occurrences have these meanings, and those in methods see the scopes of their classes. -/
structure Stands (occurrences : List Occurrence) (meanings : List Meaning) : Prop where
  meanings_eq : meanings = occurrences.map Occurrence.meaning
  inClasses : ∀ occurrence ∈ occurrences, occurrence.around.method ≠ none → occurrence.InClasses

namespace Stands

variable {around : Surroundings} {table : SymbolTable} {first rest : List Occurrence}
  {firstMeanings restMeanings : List Meaning}

theorem nil : Stands [] [] := ⟨rfl, nofun⟩

theorem append (hfirst : Stands first firstMeanings) (hrest : Stands rest restMeanings) :
    Stands (first ++ rest) (firstMeanings ++ restMeanings) where
  meanings_eq := by rw [hfirst.meanings_eq, hrest.meanings_eq, List.map_append]
  inClasses := List.forall_mem_append.mpr ⟨hfirst.inClasses, hrest.inClasses⟩

theorem outside_methods (h : Sees around table first firstMeanings)
    (haround : around.method = none) : Stands first firstMeanings where
  meanings_eq := h.meanings_eq
  inClasses := fun occurrence hmem hmethod =>
    absurd ((congrArg Surroundings.method (h.within occurrence hmem).1).trans haround) hmethod

theorem in_method (h : Sees around table first firstMeanings)
    (hnest : Nest table.bare.enclosing around.classes) : Stands first firstMeanings where
  meanings_eq := h.meanings_eq
  inClasses := by
    intro occurrence hmem _
    obtain ⟨haround, hwithin⟩ := h.within occurrence hmem
    rw [Occurrence.InClasses, haround]
    exact ⟨_, hnest, hwithin.trans (List.suffix_cons _ _)⟩

end Stands

namespace Inspection

variable {classes : List ClassDecl}

theorem method_stands {c : Inspection} (hnest : Nest c.symbols.bare.scopes classes)
    (decl : Method) :
    Stands (c.methodOccurrences classes decl)
      (c.methodMeanings (Surroundings.place ⟨classes, none⟩) decl) := by
  let around : Surroundings := ⟨classes, some (Lowering.kindOf decl)⟩
  obtain ⟨front, -, hparams⟩ := Extends.bringParams c.enter.symbols decl.params
  refine Stands.in_method (stmts_sees around _ decl.body _) ?_
  rw [symbols_params, hparams]
  exact hnest

theorem fields_stand (members : List Member) (c : Inspection) :
    Stands (c.fieldOccurrences ⟨classes, none⟩ members)
      (c.fieldMeanings (Surroundings.place ⟨classes, none⟩) members) := by
  induction members generalizing c with
  | nil => exact .nil
  | cons member rest ih =>
      cases member with
      | field decl =>
          have hname := Sees.one ⟨classes, none⟩ (c.declaration decl true).symbols decl.name
          have hinit := c.sees_exprs ⟨classes, none⟩ decl.init.toList
          exact ((Stands.outside_methods hname rfl).append (.outside_methods hinit rfl)).append
            (ih _)
      | method decl => exact ih c
      | nested decl => exact ih c

mutual

theorem class_stands : (decl : ClassDecl) → ∀ {outer : List ClassDecl} (c : Inspection),
    Nest c.symbols.bare.scopes outer → Stands (c.classOccurrences outer decl) (c.classMeanings decl)
  | ⟨modifiers, name, members, position⟩, outer, c, hnest => by
      have hdepth : c.enter.symbols.depth - 1 = outer.length + 1 := by
        rw [← hnest.length]
        exact (congrArg Nat.succ c.symbols.bare_enclosing_length).symm
      have hmembers := members_stand members _
        (nest_fields hnest ⟨modifiers, name, members, position⟩)
      rw [classOccurrences, classMeanings, hdepth]
      exact (fields_stand members c.enter).append hmembers

theorem members_stand : (members : List Member) →
    ∀ {classes : List ClassDecl} (c : Inspection), Nest c.symbols.bare.scopes classes →
      Stands (c.memberOccurrences classes members)
        (c.memberMeanings (Surroundings.place ⟨classes, none⟩) members)
  | [], classes, c, hnest => by
      rw [memberOccurrences, memberMeanings]
      exact .nil
  | .field decl :: rest, classes, c, hnest => by
      rw [memberOccurrences, memberMeanings]
      exact members_stand rest c hnest
  | .method decl :: rest, classes, c, hnest => by
      rw [memberOccurrences, memberMeanings]
      refine (method_stands hnest decl).append (members_stand rest _ ?_)
      rwa [c.method_bare decl]
  | .nested decl :: rest, classes, c, hnest => by
      rw [memberOccurrences, memberMeanings]
      refine (class_stands decl c hnest).append (members_stand rest _ ?_)
      rwa [classDecl_bare decl c]

end

/-- Between the items of a program there is only the outermost scope. -/
theorem nest_item {c : Inspection} (hnest : Nest c.symbols.bare.scopes []) (i : Item) :
    Nest (c.item i).symbols.bare.scopes [] := by
  cases i with
  | declaration decl =>
      rw [item, classDecl_bare decl c]
      exact hnest
  | statement s =>
      have henclosing : c.symbols.bare.enclosing = [] :=
        List.length_eq_zero_iff.mp (Nat.succ.inj hnest.length)
      obtain ⟨front, -, hbare⟩ := stmt_extends none s c
      rw [item, hbare, SymbolTable.scopes, henclosing]
      exact .outermost _

theorem items_stand (list : List Item) {c : Inspection} (hnest : Nest c.symbols.bare.scopes []) :
    Stands (c.itemsOccurrences list) (c.itemsMeanings list) := by
  induction list generalizing c with
  | nil => exact .nil
  | cons first rest ih =>
      refine Stands.append ?_ (ih (nest_item hnest first))
      cases first with
      | declaration decl => exact class_stands decl c hnest
      | statement s => exact .outside_methods (stmt_sees .outside none s c) rfl

end Inspection

theorem Program.occurrences_stand (program : Program) :
    Stands program.occurrences program.checkedMeanings :=
  Inspection.items_stand program.items (.outermost [])

end MiniJava
