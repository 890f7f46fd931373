import MiniJava.Proofs.Json.Decoding

/-!
# Trees have distinct keys in JSON

No object that is part of the JSON of a tree has two members with one key, although the tags of an
item and of a statement stand in one object with the members of an expression.
-/

namespace MiniJava

open Json

@[simp] theorem Position.distinct (position : Position) : position.toJson.Distinct := by
  simp [toJson, members]

@[simp] theorem TypeName.distinct (type : TypeName) : type.toJson.Distinct := by simp [toJson]

@[simp] theorem distinct_modifiers (modifiers : List Modifier) :
    (modifiersToJson modifiers).Distinct := by
  simp [modifiersToJson, Modifier.toJson]

@[simp] theorem Literal.distinct (value : Literal) : value.toJson.Distinct := by
  cases value <;> simp [toJson]

/-- The tags of an item and of a statement are no keys of an expression. -/
theorem Expr.tag_not_mem (e : Expr) :
    "item" ∉ e.members.map Prod.fst ∧ "stmt" ∉ e.members.map Prod.fst := by
  cases e <;> simp [members]

theorem Expr.distinct (e : Expr) : (Json.object e.members).Distinct := by
  induction e with
  | literal value position => simp [members]
  | name text position => simp [members]
  | binary op lhs rhs ihl ihr => simp [members, ihl, ihr]
  | unary op operand ih => simp [members, ih]
  | assign target op value position ih => simp [members, ih]
  | step target op form position => simp [members]

@[simp] theorem Expr.distinct_toJson (e : Expr) : e.toJson.Distinct := e.distinct

@[simp] theorem distinct_exprs (exprs : List Expr) : (exprsToJson exprs).Distinct := by
  simp [exprsToJson]

/-- The tags of an item, a statement and a member are no keys of a declaration. -/
theorem VarDecl.tag_not_mem (decl : VarDecl) :
    ∀ tag ∈ ["item", "stmt", "member"], tag ∉ decl.members.map Prod.fst := by
  simp [members]

theorem VarDecl.distinct (decl : VarDecl) : (Json.object decl.members).Distinct := by
  simp [members]

theorem Stmt.tag_not_mem (s : Stmt) : "item" ∉ s.members.map Prod.fst := by
  cases s with
  | declare decl => simpa [members] using decl.tag_not_mem "item" (by simp)
  | expression e => simpa [members] using e.tag_not_mem.1
  | switch scrutinee cases default => cases default <;> simp [members]
  | tryCatch body catches cleanup => cases cleanup <;> simp [members, blockMembers]
  | _ => simp [members, blockMembers]

theorem distinct_block {statements : List Json} (h : ∀ s ∈ statements, s.Distinct) :
    (Json.object (blockMembers statements)).Distinct := by
  simpa [blockMembers] using h

mutual

theorem Stmt.distinct : (s : Stmt) → (Json.object s.members).Distinct
  | .declare decl => by
      have hkey := decl.tag_not_mem "stmt" (by simp)
      rw [Stmt.members, distinct_cons]
      exact ⟨hkey, distinct_string _, decl.distinct⟩
  | .expression e => by
      rw [Stmt.members, distinct_cons]
      exact ⟨e.tag_not_mem.2, distinct_string _, e.distinct⟩
  | .block body => by
      simpa [Stmt.members, blockMembers] using all_distinct body
  | .ifElse condition thenBranch elseBranch => by
      simp [Stmt.members, thenBranch.distinct, optionalStmt_distinct elseBranch]
  | .whileLoop condition body => by simp [Stmt.members, body.distinct]
  | .doWhile body condition => by simp [Stmt.members, body.distinct]
  | .forLoop init condition update body => by
      simp [Stmt.members, optionalStmt_distinct init, body.distinct]
  | .switch scrutinee cases none => by
      simpa [Stmt.members] using cases_distinct cases
  | .switch scrutinee cases (some default) => by
      simpa [Stmt.members] using ⟨cases_distinct cases, all_distinct default⟩
  | .tryCatch body catches none => by
      simpa [Stmt.members] using
        ⟨distinct_block (all_distinct body), catches_distinct catches⟩
  | .tryCatch body catches (some cleanup) => by
      simpa [Stmt.members] using ⟨distinct_block (all_distinct body), catches_distinct catches,
        distinct_block (all_distinct cleanup)⟩
  | .print kind args position => by simp [Stmt.members]
  | .returns value position => by simp [Stmt.members]
  | .breaks | .continues | .empty => by simp [Stmt.members]

theorem optionalStmt_distinct : (s : Option Stmt) → (optionalStmtToJson s).Distinct
  | none => trivial
  | some s => s.distinct

theorem all_distinct : (body : List Stmt) → ∀ s ∈ stmtsToJson body, s.Distinct
  | [] => List.forall_mem_nil _
  | first :: rest => List.forall_mem_cons.mpr ⟨first.distinct, all_distinct rest⟩

theorem cases_distinct : (cases : List (SwitchCase Stmt)) → ∀ c ∈ casesToJson cases, c.Distinct
  | [] => List.forall_mem_nil _
  | ⟨value, body⟩ :: rest => List.forall_mem_cons.mpr
      ⟨by simpa using all_distinct body, cases_distinct rest⟩

theorem catches_distinct : (catches : List (CatchClause Stmt)) →
    ∀ c ∈ catchesToJson catches, c.Distinct
  | [] => List.forall_mem_nil _
  | ⟨exception, name, body, position⟩ :: rest => List.forall_mem_cons.mpr
      ⟨by simpa using distinct_block (all_distinct body), catches_distinct rest⟩

end

theorem Method.tag_not_mem (decl : Method) : "member" ∉ decl.members.map Prod.fst := by
  simp [members]

theorem Method.distinct (decl : Method) : (Json.object decl.members).Distinct := by
  simpa [members, Param.toJson] using distinct_block (all_distinct decl.body)

/-- The tags of an item and of a member are no keys of a class. -/
theorem class_tag_not_mem (decl : ClassDecl) :
    ∀ tag ∈ ["item", "member"], tag ∉ (classMembers decl).map Prod.fst := by
  obtain ⟨modifiers, name, members, position⟩ := decl
  simp [classMembers]

mutual

theorem class_distinct : (decl : ClassDecl) → (Json.object (classMembers decl)).Distinct
  | ⟨modifiers, name, members, position⟩ => by
      simpa [classMembers] using members_distinct members

theorem members_distinct : (members : List Member) → ∀ m ∈ membersToJson members, m.Distinct
  | [] => by simp [membersToJson]
  | .field decl :: rest => by
      rw [membersToJson, List.forall_mem_cons, distinct_cons]
      exact ⟨⟨decl.tag_not_mem "member" (by simp), distinct_string _, decl.distinct⟩,
        members_distinct rest⟩
  | .method decl :: rest => by
      rw [membersToJson, List.forall_mem_cons, distinct_cons]
      exact ⟨⟨decl.tag_not_mem, distinct_string _, decl.distinct⟩, members_distinct rest⟩
  | .nested decl :: rest => by
      rw [membersToJson, List.forall_mem_cons, distinct_cons]
      exact ⟨⟨class_tag_not_mem decl "member" (by simp), distinct_string _, class_distinct decl⟩,
        members_distinct rest⟩

end

theorem Item.distinct (item : Item) : item.toJson.Distinct := by
  cases item with
  | declaration decl =>
      exact distinct_cons.mpr
        ⟨class_tag_not_mem decl "item" (by simp), distinct_string _, class_distinct decl⟩
  | statement s => exact distinct_cons.mpr ⟨s.tag_not_mem, distinct_string _, s.distinct⟩

theorem Program.distinct (program : Program) : program.toJson.Distinct := by
  simpa [toJson] using fun item _ => item.distinct

end MiniJava
