import MiniJava.Proofs.Json.Alike

/-!
# Trees are read back from JSON

Every node is read back from its own members, in whatever order they stand and whatever other
members stand beside them: the members of an expression are read from the object of the statement
that the expression is.
-/

namespace MiniJava

open Json

theorem BinaryOp.ofLabel?_label (op : BinaryOp) : ofLabel? op.label = some op := by
  cases op <;> decide

theorem UnaryOp.ofLabel?_label (op : UnaryOp) : ofLabel? op.label = some op := by
  cases op <;> decide

theorem StepOp.ofLabel?_label (op : StepOp) : ofLabel? op.label = some op := by
  cases op <;> decide

theorem PrintKind.ofLabel?_label (kind : PrintKind) : ofLabel? kind.label = some kind := by
  cases kind <;> decide

theorem Position.decodes (position : Position) :
    Decodes Position.ofJson? position.toJson position := by
  intro json h
  obtain ⟨⟨line, _, hline, rfl⟩, ⟨column, _, hcolumn, rfl⟩, -⟩ := h.has
  simp [Position.ofJson?, hline, hcolumn, count?]

theorem Modifier.decodes (modifier : Modifier) :
    Decodes Modifier.ofJson? modifier.toJson modifier := decodes_label (ofWord?_word modifier)

theorem decodes_modifiers (modifiers : List Modifier) :
    Decodes (list? Modifier.ofJson?) (modifiersToJson modifiers) modifiers :=
  decodes_list modifiers fun modifier _ => modifier.decodes

theorem TypeName.decodes (type : TypeName) : Decodes TypeName.ofJson? type.toJson type := by
  intro json h
  obtain ⟨hname, hdimensions, -⟩ := h.has
  simp [TypeName.ofJson?, hname.read? (decodes_string _), hdimensions.read? (decodes_count _)]

theorem PrintKind.decodes (kind : PrintKind) :
    Decodes PrintKind.ofJson? (.string kind.label) kind := decodes_label (ofLabel?_label kind)

theorem Literal.decodes (value : Literal) : Decodes Literal.ofJson? value.toJson value := by
  intro json h
  cases value with
  | number text =>
      obtain ⟨htag, hvalue, -⟩ := h.has
      simp [Literal.ofJson?, htag.read? (decodes_string _), hvalue.read? (decodes_string _)]
  | string text =>
      obtain ⟨htag, hvalue, -⟩ := h.has
      simp [Literal.ofJson?, htag.read? (decodes_string _), hvalue.read? (decodes_string _)]
  | char text =>
      obtain ⟨htag, hvalue, -⟩ := h.has
      simp [Literal.ofJson?, htag.read? (decodes_string _), hvalue.read? (decodes_string _)]
  | bool b =>
      obtain ⟨htag, hvalue, -⟩ := h.has
      simp [Literal.ofJson?, htag.read? (decodes_string _), hvalue.read? (decodes_bool _)]
  | null =>
      obtain ⟨htag, -⟩ := h.has
      simp [Literal.ofJson?, htag.read? (decodes_string _)]

theorem Expr.ofJson?_of_has (e : Expr) {json : Json} (h : json.Has e.members) :
    Expr.ofJson? json = some e := by
  induction e generalizing json with
  | literal value position =>
      obtain ⟨htag, hvalue, hposition, -⟩ := h
      rw [ofJson?, htag.read? (decodes_string _), Option.bind_eq_bind, Option.bind_some]
      simp [hvalue.read? value.decodes, hposition.read? position.decodes]
  | name text position =>
      obtain ⟨htag, hname, hposition, -⟩ := h
      rw [ofJson?, htag.read? (decodes_string _), Option.bind_eq_bind, Option.bind_some]
      simp [hname.read? (decodes_string _), hposition.read? position.decodes]
  | binary op lhs rhs ihl ihr =>
      obtain ⟨htag, hop, ⟨left, _, hleft, hlhs⟩, ⟨right, _, hright, hrhs⟩, -⟩ := h
      rw [ofJson?, htag.read? (decodes_string _), Option.bind_eq_bind, Option.bind_some]
      simp [hop.read? (decodes_string _), op.ofLabel?_label, hleft, hright, ihl hlhs.has,
        ihr hrhs.has]
  | unary op operand ih =>
      obtain ⟨htag, hop, ⟨inner, _, hinner, hoperand⟩, -⟩ := h
      rw [ofJson?, htag.read? (decodes_string _), Option.bind_eq_bind, Option.bind_some]
      simp [hop.read? (decodes_string _), op.ofLabel?_label, hinner, ih hoperand.has]
  | assign target op value position ih =>
      obtain ⟨htag, htarget, hop, ⟨inner, _, hinner, hvalue⟩, hposition, -⟩ := h
      have hops := hop.read? (decodes_optional (by simp) op fun op _ => decodes_label op.ofLabel?_label)
      rw [ofJson?, htag.read? (decodes_string _), Option.bind_eq_bind, Option.bind_some]
      simp [htarget.read? (decodes_string _), hops, hinner, ih hvalue.has,
        hposition.read? position.decodes]
  | step target op form position =>
      obtain ⟨htag, htarget, hop, hform, hposition, -⟩ := h
      rw [ofJson?, htag.read? (decodes_string _), Option.bind_eq_bind, Option.bind_some]
      simp [htarget.read? (decodes_string _), hop.read? (decodes_string _), op.ofLabel?_label,
        hform.read? (decodes_bool _), hposition.read? position.decodes]
      cases form <;> simp

theorem Expr.decodes (e : Expr) : Decodes Expr.ofJson? e.toJson e :=
  fun _ h => e.ofJson?_of_has h.has

theorem decodes_exprs (exprs : List Expr) :
    Decodes (list? Expr.ofJson?) (exprsToJson exprs) exprs :=
  decodes_list exprs fun e _ => e.decodes

theorem decodes_optionalExpr (e : Option Expr) :
    Decodes (optional? Expr.ofJson?) (.optional Expr.toJson e) e :=
  decodes_optional (by simp [Expr.toJson]) e fun e _ => e.decodes

theorem VarDecl.ofJson?_of_has (decl : VarDecl) {json : Json} (h : json.Has decl.members) :
    VarDecl.ofJson? json = some decl := by
  obtain ⟨hmodifiers, htype, hname, hinit, hposition, -⟩ := h
  simp [VarDecl.ofJson?, hmodifiers.read? (decodes_modifiers _), htype.read? decl.type.decodes,
    hname.read? (decodes_string _), hinit.read? (decodes_optionalExpr _),
    hposition.read? decl.position.decodes]

/-- A statement is read back from its members. -/
def Stmt.Decodes (s : Stmt) : Prop := Json.Decodes Stmt.ofJson? (.object s.members) s

def SwitchCase.toJson (c : SwitchCase Stmt) : Json :=
  .object [("value", c.value.toJson), ("body", .array (stmtsToJson c.body))]

def SwitchCase.ofJson? (json : Json) : Option (SwitchCase Stmt) := do
  let ⟨body, _⟩ ← json.member? "body"
  return ⟨← json.read? "value" Expr.ofJson?, ← stmtsOfJson? body⟩

def CatchClause.toJson (clause : CatchClause Stmt) : Json :=
  .object [("exception", clause.exception.toJson), ("name", .string clause.name),
    ("body", .object (blockMembers (stmtsToJson clause.body))),
    ("position", clause.position.toJson)]

def CatchClause.ofJson? (json : Json) : Option (CatchClause Stmt) := do
  let ⟨body, _⟩ ← json.member? "body"
  return ⟨← json.read? "exception" TypeName.ofJson?, ← json.read? "name" Json.string?,
    ← blockOfJson? body, ← json.read? "position" Position.ofJson?⟩

theorem stmtsToJson_eq (body : List Stmt) :
    stmtsToJson body = body.map fun s => .object s.members := by
  induction body with
  | nil => rfl
  | cons first rest ih => rw [stmtsToJson, ih, List.map_cons]

theorem casesToJson_eq (cases : List (SwitchCase Stmt)) :
    casesToJson cases = cases.map SwitchCase.toJson := by
  induction cases with
  | nil => rfl
  | cons first rest ih =>
      rw [casesToJson, ih, List.map_cons]
      rfl

theorem catchesToJson_eq (catches : List (CatchClause Stmt)) :
    catchesToJson catches = catches.map CatchClause.toJson := by
  induction catches with
  | nil => rfl
  | cons first rest ih =>
      rw [catchesToJson, ih, List.map_cons]
      rfl

section Lists

variable {body : List Stmt}

theorem decodes_stmts (h : ∀ s ∈ body, s.Decodes) :
    Decodes stmtsOfJson? (.array (stmtsToJson body)) body := by
  intro json halike
  rw [stmtsToJson_eq] at halike
  rw [stmtsOfJson?]
  exact decodes_list body h json halike

theorem decodes_block (h : ∀ s ∈ body, s.Decodes) :
    Decodes blockOfJson? (.object (blockMembers (stmtsToJson body))) body := by
  intro json halike
  obtain ⟨⟨statements, _, hmember, hbody⟩, -⟩ := halike.has
  rw [blockOfJson?]
  simp [hmember, decodes_stmts h _ hbody]

theorem decodes_default (h : ∀ s ∈ body, s.Decodes) :
    Decodes defaultOfJson? (.array (stmtsToJson body)) (some body) := by
  intro json halike
  have hnull := ne_null_of_alike halike nofun
  rw [defaultOfJson?, decodes_stmts h json halike]
  · rfl
  · exact hnull

theorem decodes_optionalBlock (h : ∀ s ∈ body, s.Decodes) :
    Decodes optionalBlockOfJson? (.object (blockMembers (stmtsToJson body))) (some body) := by
  intro json halike
  have hnull := ne_null_of_alike halike nofun
  rw [optionalBlockOfJson?, decodes_block h json halike]
  · rfl
  · exact hnull

theorem decodes_case {value : Expr} (h : ∀ s ∈ body, s.Decodes) :
    Decodes SwitchCase.ofJson? (SwitchCase.toJson ⟨value, body⟩) ⟨value, body⟩ := by
  intro json halike
  obtain ⟨hvalue, ⟨statements, _, hmember, hbody⟩, -⟩ := halike.has
  simp [SwitchCase.ofJson?, hmember, hvalue.read? value.decodes, decodes_stmts h _ hbody]

theorem decodes_catch {exception : TypeName} {name : String} {position : Position}
    (h : ∀ s ∈ body, s.Decodes) :
    Decodes CatchClause.ofJson? (CatchClause.toJson ⟨exception, name, body, position⟩)
      ⟨exception, name, body, position⟩ := by
  intro json halike
  obtain ⟨hexception, hname, ⟨block, _, hmember, hbody⟩, hposition, -⟩ := halike.has
  simp [CatchClause.ofJson?, hmember, hexception.read? exception.decodes,
    hname.read? (decodes_string _), decodes_block h _ hbody, hposition.read? position.decodes]

theorem decodes_cases {cases : List (SwitchCase Stmt)}
    (h : ∀ c ∈ cases, Decodes SwitchCase.ofJson? c.toJson c) :
    Decodes casesOfJson? (.array (casesToJson cases)) cases := by
  intro json halike
  rw [casesToJson_eq] at halike
  rw [casesOfJson?]
  exact decodes_list cases h json halike

theorem decodes_catches {catches : List (CatchClause Stmt)}
    (h : ∀ c ∈ catches, Decodes CatchClause.ofJson? c.toJson c) :
    Decodes catchesOfJson? (.array (catchesToJson catches)) catches := by
  intro json halike
  rw [catchesToJson_eq] at halike
  rw [catchesOfJson?]
  exact decodes_list catches h json halike

end Lists

mutual

/-- The tag is read in front of the rest, so that only its branch of the reader is left to open. -/
theorem Stmt.ofJson?_of_has : (s : Stmt) → ∀ {json : Json}, json.Has s.members →
    Stmt.ofJson? json = some s
  | .declare decl, json, h => by
      obtain ⟨htag, hdecl⟩ := h
      rw [Stmt.ofJson?, htag.read? (decodes_string _), Option.bind_eq_bind, Option.bind_some]
      simp [decl.ofJson?_of_has hdecl]
  | .expression e, json, h => by
      obtain ⟨htag, he⟩ := h
      rw [Stmt.ofJson?, htag.read? (decodes_string _), Option.bind_eq_bind, Option.bind_some]
      simp [e.ofJson?_of_has he]
  | .block body, json, h => by
      obtain ⟨htag, ⟨statements, _, hmember, hbody⟩, -⟩ := h
      rw [Stmt.ofJson?, htag.read? (decodes_string _), Option.bind_eq_bind, Option.bind_some]
      simp [hmember, decodes_stmts (all_decode body) _ hbody]
  | .ifElse condition thenBranch elseBranch, json, h => by
      obtain ⟨htag, hcondition, ⟨yes, _, hyes, hthen⟩, ⟨no, _, hno, helse⟩, -⟩ := h
      rw [Stmt.ofJson?, htag.read? (decodes_string _), Option.bind_eq_bind, Option.bind_some]
      simp [hcondition.read? condition.decodes, hyes, hno,
        thenBranch.ofJson?_of_has hthen.has, decodes_optionalStmt elseBranch _ helse]
  | .whileLoop condition body, json, h => by
      obtain ⟨htag, hcondition, ⟨inner, _, hinner, hbody⟩, -⟩ := h
      rw [Stmt.ofJson?, htag.read? (decodes_string _), Option.bind_eq_bind, Option.bind_some]
      simp [hcondition.read? condition.decodes, hinner,
        body.ofJson?_of_has hbody.has]
  | .doWhile body condition, json, h => by
      obtain ⟨htag, ⟨inner, _, hinner, hbody⟩, hcondition, -⟩ := h
      rw [Stmt.ofJson?, htag.read? (decodes_string _), Option.bind_eq_bind, Option.bind_some]
      simp [hcondition.read? condition.decodes, hinner,
        body.ofJson?_of_has hbody.has]
  | .forLoop init condition update body, json, h => by
      obtain ⟨htag, ⟨first, _, hfirst, hinit⟩, hcondition, hupdate, ⟨inner, _, hinner, hbody⟩, -⟩ := h
      rw [Stmt.ofJson?, htag.read? (decodes_string _), Option.bind_eq_bind, Option.bind_some]
      simp [hfirst, decodes_optionalStmt init _ hinit,
        hcondition.read? (decodes_optionalExpr _), hupdate.read? (decodes_exprs _), hinner,
        body.ofJson?_of_has hbody.has]
  | .switch scrutinee cases none, json, h => by
      obtain ⟨htag, hscrutinee, ⟨labels, _, hlabels, hcases⟩, ⟨_, _, hdefault, rfl⟩, -⟩ := h
      rw [Stmt.ofJson?, htag.read? (decodes_string _), Option.bind_eq_bind, Option.bind_some]
      simp [hscrutinee.read? scrutinee.decodes, hlabels, hdefault,
        decodes_cases (cases_decode cases) _ hcases, defaultOfJson?]
  | .switch scrutinee cases (some default), json, h => by
      obtain ⟨htag, hscrutinee, ⟨labels, _, hlabels, hcases⟩, ⟨last, _, hlast, hdefault⟩, -⟩ := h
      rw [Stmt.ofJson?, htag.read? (decodes_string _), Option.bind_eq_bind, Option.bind_some]
      simp [hscrutinee.read? scrutinee.decodes, hlabels, hlast,
        decodes_cases (cases_decode cases) _ hcases,
        decodes_default (all_decode default) _ hdefault]
  | .tryCatch body catches none, json, h => by
      obtain ⟨htag, ⟨block, _, hblock, hbody⟩, ⟨clauses, _, hclauses, hcatches⟩,
        ⟨_, _, hcleanup, rfl⟩, -⟩ := h
      rw [Stmt.ofJson?, htag.read? (decodes_string _), Option.bind_eq_bind, Option.bind_some]
      simp [hblock, decodes_block (all_decode body) _ hbody, hclauses,
        decodes_catches (catches_decode catches) _ hcatches, hcleanup, optionalBlockOfJson?]
  | .tryCatch body catches (some cleanup), json, h => by
      obtain ⟨htag, ⟨block, _, hblock, hbody⟩, ⟨clauses, _, hclauses, hcatches⟩,
        ⟨last, _, hlast, hcleanup⟩, -⟩ := h
      rw [Stmt.ofJson?, htag.read? (decodes_string _), Option.bind_eq_bind, Option.bind_some]
      simp [hblock, decodes_block (all_decode body) _ hbody, hclauses,
        decodes_catches (catches_decode catches) _ hcatches, hlast,
        decodes_optionalBlock (all_decode cleanup) _ hcleanup]
  | .print kind args position, json, h => by
      obtain ⟨htag, hkind, hargs, hposition, -⟩ := h
      rw [Stmt.ofJson?, htag.read? (decodes_string _), Option.bind_eq_bind, Option.bind_some]
      simp [hkind.read? kind.decodes,
        hargs.read? (decodes_exprs _), hposition.read? position.decodes]
  | .returns value position, json, h => by
      obtain ⟨htag, hvalue, hposition, -⟩ := h
      rw [Stmt.ofJson?, htag.read? (decodes_string _), Option.bind_eq_bind, Option.bind_some]
      simp [hvalue.read? (decodes_optionalExpr _),
        hposition.read? position.decodes]
  | .breaks, json, h => by
      rw [Stmt.ofJson?, h.1.read? (decodes_string _), Option.bind_eq_bind, Option.bind_some]
      rfl
  | .continues, json, h => by
      rw [Stmt.ofJson?, h.1.read? (decodes_string _), Option.bind_eq_bind, Option.bind_some]
      rfl
  | .empty, json, h => by
      rw [Stmt.ofJson?, h.1.read? (decodes_string _), Option.bind_eq_bind, Option.bind_some]
      rfl

theorem decodes_optionalStmt : (s : Option Stmt) →
    Decodes optionalStmtOfJson? (optionalStmtToJson s) s
  | none => by
      rintro json rfl
      rw [optionalStmtOfJson?]
  | some s => by
      intro json h
      have hnull := ne_null_of_alike h nofun
      rw [optionalStmtOfJson?, s.ofJson?_of_has h.has]
      · rfl
      · exact hnull

theorem all_decode : (body : List Stmt) → ∀ s ∈ body, s.Decodes
  | [] => List.forall_mem_nil _
  | first :: rest => List.forall_mem_cons.mpr
      ⟨fun _ h => first.ofJson?_of_has h.has, all_decode rest⟩

theorem cases_decode : (cases : List (SwitchCase Stmt)) →
    ∀ c ∈ cases, Decodes SwitchCase.ofJson? c.toJson c
  | [] => List.forall_mem_nil _
  | ⟨_, body⟩ :: rest => List.forall_mem_cons.mpr
      ⟨decodes_case (all_decode body), cases_decode rest⟩

theorem catches_decode : (catches : List (CatchClause Stmt)) →
    ∀ c ∈ catches, Decodes CatchClause.ofJson? c.toJson c
  | [] => List.forall_mem_nil _
  | ⟨_, _, body, _⟩ :: rest => List.forall_mem_cons.mpr
      ⟨decodes_catch (all_decode body), catches_decode rest⟩

end

theorem Param.decodes (param : Param) : Decodes Param.ofJson? param.toJson param := by
  intro json h
  obtain ⟨htype, hname, hposition, -⟩ := h.has
  simp [Param.ofJson?, htype.read? param.type.decodes, hname.read? (decodes_string _),
    hposition.read? param.position.decodes]

theorem Method.ofJson?_of_has (decl : Method) {json : Json} (h : json.Has decl.members) :
    Method.ofJson? json = some decl := by
  obtain ⟨hmodifiers, htype, hname, hparams, hbody, hposition, -⟩ := h
  have htypes := htype.read? (decodes_optional (by simp [TypeName.toJson]) decl.returnType
    fun type _ => type.decodes)
  have hparams' := hparams.read? (decodes_list decl.params fun param _ => param.decodes)
  simp [Method.ofJson?, hmodifiers.read? (decodes_modifiers _), htypes,
    hname.read? (decodes_string _), hparams', hbody.read? (decodes_block (all_decode decl.body)),
    hposition.read? decl.position.decodes]

def Member.toJson : Member → Json
  | .field decl => .object (("member", .string "field") :: decl.members)
  | .method decl => .object (("member", .string "method") :: decl.members)
  | .nested decl => .object (("member", .string "class") :: classMembers decl)

theorem membersToJson_eq (members : List Member) :
    membersToJson members = members.map Member.toJson := by
  induction members with
  | nil => rw [membersToJson, List.map_nil]
  | cons first rest ih =>
      rw [List.map_cons, ← ih]
      cases first <;> rw [membersToJson, Member.toJson]

theorem decodes_members {members : List Member}
    (h : ∀ m ∈ members, Decodes Member.ofJson? m.toJson m) :
    Decodes membersOfJson? (.array (membersToJson members)) members := by
  intro json halike
  rw [membersToJson_eq] at halike
  rw [membersOfJson?]
  exact decodes_list members h json halike

mutual

theorem classOfJson?_of_has : (decl : ClassDecl) → ∀ {json : Json}, json.Has (classMembers decl) →
    classOfJson? json = some decl
  | ⟨modifiers, name, members, position⟩, json, h => by
      rw [classMembers] at h
      obtain ⟨hmodifiers, hname, ⟨inner, _, hinner, hmembers⟩, hposition, -⟩ := h
      rw [classOfJson?]
      simp [hmodifiers.read? (decodes_modifiers _), hname.read? (decodes_string _), hinner,
        decodes_members (members_decode members) _ hmembers, hposition.read? position.decodes]

theorem members_decode : (members : List Member) →
    ∀ m ∈ members, Decodes Member.ofJson? m.toJson m
  | [] => List.forall_mem_nil _
  | .field decl :: rest => by
      refine List.forall_mem_cons.mpr ⟨fun json h => ?_, members_decode rest⟩
      obtain ⟨htag, hdecl⟩ := h.has
      rw [Member.ofJson?]
      simp [htag.read? (decodes_string _), decl.ofJson?_of_has hdecl]
  | .method decl :: rest => by
      refine List.forall_mem_cons.mpr ⟨fun json h => ?_, members_decode rest⟩
      obtain ⟨htag, hdecl⟩ := h.has
      rw [Member.ofJson?]
      simp [htag.read? (decodes_string _), decl.ofJson?_of_has hdecl]
  | .nested decl :: rest => by
      refine List.forall_mem_cons.mpr ⟨fun json h => ?_, members_decode rest⟩
      obtain ⟨htag, hdecl⟩ := h.has
      rw [Member.ofJson?]
      simp [htag.read? (decodes_string _), classOfJson?_of_has decl hdecl]

end

theorem Item.decodes (item : Item) : Decodes Item.ofJson? item.toJson item := by
  intro json h
  cases item with
  | declaration decl =>
      obtain ⟨htag, hdecl⟩ := h.has
      simp [Item.ofJson?, htag.read? (decodes_string _), classOfJson?_of_has decl hdecl]
  | statement s =>
      obtain ⟨htag, hs⟩ := h.has
      simp [Item.ofJson?, htag.read? (decodes_string _), s.ofJson?_of_has hs]

theorem Program.decodes (program : Program) :
    Decodes Program.ofJson? program.toJson program := by
  intro json h
  obtain ⟨hitems, -⟩ := h.has
  have hread := hitems.read? (decodes_list program.items fun item _ => item.decodes)
  simp [Program.ofJson?, hread]

end MiniJava
