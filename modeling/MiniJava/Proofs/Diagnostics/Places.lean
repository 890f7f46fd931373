import MiniJava.Proofs.Diagnostics.Checks
import MiniJava.Proofs.Syntax.FieldsFirst

/-!
# The order of the checks is that of the text

The checker comes upon the names and the completed assignments of a program in the order in which
they are written, but for the fields of a class, which it comes upon in front of the other members.
-/

namespace MiniJava

def Check.place? : Check → Option Position
  | .reads _ position | .begins _ _ _ position | .steps _ _ position => some position
  | .stores _ _ value _ => some value.lastPosition
  | _ => none

def Check.isStore : Check → Bool
  | .stores _ _ _ _ => true
  | _ => false

/-- The places of two checks that follow each other do so as well, but for an assignment, which is
completed where its value ends. -/
def Check.InOrder (places : List Position) (c next : Check) : Prop :=
  ∀ p ∈ c.place?, ∀ q ∈ next.place?, [p, q].Sublist places ∨ p = q ∧ next.isStore = true

structure Placed (checks : List Check) (anchors : List Anchor) : Prop where
  among : ∀ c ∈ checks, ∀ p ∈ c.place?, p ∈ anchors.map Anchor.position
  inOrder : checks.Pairwise (Check.InOrder (anchors.map Anchor.position))

namespace Placed

variable {checks more : List Check} {anchors further : List Anchor} {c : Check}

theorem nil : Placed [] [] := ⟨fun _ hc => absurd hc List.not_mem_nil, .nil⟩

theorem none (anchor : Anchor) : Placed [] [anchor] :=
  ⟨fun _ hc => absurd hc List.not_mem_nil, .nil⟩

theorem append (h : Placed checks anchors) (hmore : Placed more further) :
    Placed (checks ++ more) (anchors ++ further) where
  among c hc p hp := by
    rw [List.map_append, List.mem_append]
    exact (List.mem_append.mp hc).imp (h.among c · p hp) (hmore.among c · p hp)
  inOrder := by
    rw [List.map_append]
    refine List.pairwise_append.mpr ⟨h.inOrder.imp ?_, hmore.inOrder.imp ?_, ?_⟩
    · intro c next hc p hp q hq
      exact (hc p hp q hq).imp_left fun hsub => hsub.trans (List.sublist_append_left _ _)
    · intro c next hc p hp q hq
      exact (hc p hp q hq).imp_left fun hsub => hsub.trans (List.sublist_append_right _ _)
    · intro c hc next hnext p hp q hq
      have hfirst := List.singleton_sublist.mpr (h.among c hc p hp)
      exact .inl (hfirst.append (List.singleton_sublist.mpr (hmore.among next hnext q hq)))

/-- A check without a place. -/
theorem silent (h : c.place? = .none) : Placed [c] [] where
  among other hother p hp := by
    rw [List.mem_singleton.mp hother, h] at hp
    cases hp
  inOrder := List.pairwise_singleton _ c

theorem one {anchor : Anchor} (h : c.place? = some anchor.position) : Placed [c] [anchor] where
  among other hother p hp := by
    rw [List.mem_singleton.mp hother, h] at hp
    exact List.mem_singleton.mpr (Option.some.inj hp).symm
  inOrder := List.pairwise_singleton _ c

theorem behind (h : Placed checks anchors) (hc : c.place? = .none) :
    Placed (checks ++ [c]) anchors := by
  have hboth := h.append (silent hc)
  rwa [List.append_nil] at hboth

theorem ahead (h : Placed checks anchors) (hc : c.place? = .none) : Placed (c :: checks) anchors :=
  (silent hc).append h

theorem scope (h : Placed checks anchors) : Placed (.enter :: checks ++ [.leave]) anchors :=
  (h.ahead rfl).behind rfl

/-- An anchor in front at which no check is made. -/
theorem skip (anchor : Anchor) (h : Placed checks anchors) : Placed checks (anchor :: anchors) :=
  (none anchor).append h

theorem flatMap {α : Type} {list : List α} {checks : α → List Check} {anchors : α → List Anchor}
    (h : ∀ a ∈ list, Placed (checks a) (anchors a)) :
    Placed (list.flatMap checks) (list.flatMap anchors) := by
  induction list with
  | nil => exact nil
  | cons first rest ih =>
      exact (h first List.mem_cons_self).append (ih fun a ha => h a (List.mem_cons_of_mem _ ha))

/-- An assignment is completed at the last anchor of its value. -/
theorem stored {value : Expr} (h : Placed checks value.anchors) (target : String)
    (op : Option BinaryOp) (position : Position) :
    Placed (checks ++ [.stores target op value position]) value.anchors := by
  obtain ⟨front, hfront⟩ := value.positions_eq_concat
  have hlast : value.lastPosition ∈ value.anchors.map Anchor.position := by
    rw [hfront]
    exact List.mem_append_right _ List.mem_cons_self
  refine ⟨fun c hc p hp => ?_, ?_⟩
  · rcases List.mem_append.mp hc with hc | hc
    · exact h.among c hc p hp
    · rw [List.mem_singleton.mp hc] at hp
      rwa [← Option.some.inj hp]
  · refine List.pairwise_append.mpr ⟨h.inOrder, List.pairwise_singleton _ _, ?_⟩
    intro c hc next hnext p hp q hq
    have hp := h.among c hc p hp
    rw [List.mem_singleton.mp hnext] at hq ⊢
    rw [← Option.some.inj hq]
    rw [hfront] at hp ⊢
    rcases List.mem_append.mp hp with hp | hp
    · exact .inl ((List.singleton_sublist.mpr hp).append (.refl _))
    · exact .inr ⟨List.mem_singleton.mp hp, rfl⟩

theorem expr (e : Expr) : Placed e.checks e.anchors := by
  induction e with
  | literal value position => exact none _
  | name word position => exact one rfl
  | binary op lhs rhs ihl ihr => exact (ihl.append ihr).behind rfl
  | unary op operand ih => exact ih.behind rfl
  | assign target op value position ih =>
      have hbegins : Placed [.begins target op value position] [.name target position] := one rfl
      exact hbegins.append (ih.stored target op position)
  | step target op form position => exact one rfl

theorem exprs (list : List Expr) :
    Placed (list.flatMap Expr.checks) (list.flatMap Expr.anchors) := flatMap fun e _ => expr e

theorem condition (statement : Conditional) (e : Expr) : Placed (statement.checks e) e.anchors :=
  (expr e).behind rfl

theorem header (e : Option Expr) (update : List Expr) :
    Placed (headerChecks e update) (optionAnchors e ++ update.flatMap Expr.anchors) := by
  refine append ?_ (exprs update)
  cases e with
  | none => exact nil
  | some e =>
      rw [Option.toList_some, List.flatMap_singleton]
      exact condition .forLoop e

theorem declaration (decl : VarDecl) (initialized : Bool) :
    Placed (decl.checks initialized) decl.anchors := by
  unfold VarDecl.checks VarDecl.anchors
  refine skip _ (behind ?_ rfl)
  cases decl.init with
  | none => exact nil
  | some value => exact (expr value).behind rfl

theorem returned (expected : Option ValueType) (position : Position) (value : Option Expr) :
    Placed (returnChecks expected position value) (optionAnchors value) := by
  cases value with
  | none => exact silent rfl
  | some value => exact (expr value).behind rfl

mutual

theorem stmt (expected : Option ValueType) : (s : Stmt) → Placed (s.checks expected) s.anchors
  | .declare decl => declaration decl false
  | .expression e => expr e
  | .block list => (body expected list).scope
  | .ifElse e thenBranch .none => by
      rw [Stmt.anchors, branchAnchors, List.append_nil]
      exact (condition .ifElse e).append (stmt expected thenBranch)
  | .ifElse e thenBranch (some elseBranch) => by
      rw [Stmt.checks, List.append_assoc]
      exact (condition .ifElse e).append ((stmt expected thenBranch).append
        (stmt expected elseBranch))
  | .whileLoop e body => (condition .whileLoop e).append (stmt expected body)
  | .doWhile body e => (stmt expected body).append (condition .doWhile e)
  | .forLoop .none e update body => ((header e update).append (stmt expected body)).scope
  | .forLoop (some init) e update body =>
    (((stmt expected init).append (header e update)).append (stmt expected body)).scope
  | .switch scrutinee list .none => by
      rw [Stmt.anchors, partAnchors, List.append_nil]
      exact (expr scrutinee).append (cases expected list).scope
  | .switch scrutinee list (some default) =>
    (expr scrutinee).append ((cases expected list).append (body expected default)).scope
  | .tryCatch tried list .none => by
      rw [Stmt.anchors, partAnchors, List.append_nil]
      exact (body expected tried).scope.append (catches expected list)
  | .tryCatch tried list (some cleanup) => by
      rw [Stmt.checks, List.append_assoc]
      exact (body expected tried).scope.append ((catches expected list).append
        (body expected cleanup).scope)
  | .print _ args _ => skip _ (exprs args)
  | .returns value position => skip _ (returned expected position value)
  | .breaks | .continues | .empty => nil

theorem body (expected : Option ValueType) :
    (list : List Stmt) → Placed (bodyChecks expected list) (allAnchors list)
  | [] => nil
  | first :: rest => (stmt expected first).append (body expected rest)

theorem cases (expected : Option ValueType) :
    (list : List (SwitchCase Stmt)) → Placed (caseChecks expected list) (casesAnchors list)
  | [] => nil
  | ⟨value, statements⟩ :: rest => by
      rw [caseChecks, List.append_assoc]
      exact (expr value).append ((body expected statements).append (cases expected rest))

theorem catches (expected : Option ValueType) :
    (list : List (CatchClause Stmt)) → Placed (catchChecks expected list) (catchesAnchors list)
  | [] => nil
  | ⟨_, _, statements, _⟩ :: rest =>
    skip _ (((body expected statements).ahead rfl).scope.append (catches expected rest))

end

theorem method (decl : Method) : Placed decl.checks decl.anchors := by
  have hparams (params : List Param) :
      Placed (params.map Param.check) (params.map Param.anchor) := by
    induction params with
    | nil => exact nil
    | cons param rest ih => exact skip _ (ih.ahead rfl)
  exact skip _ (((hparams decl.params).append (body _ decl.body)).scope.behind rfl)

theorem fields (list : List Member) :
    Placed (fieldChecks list) (membersAnchors (list.filter Member.isField)) := by
  induction list with
  | nil =>
      rw [List.filter_nil, membersAnchors]
      exact nil
  | cons member rest ih =>
      cases member with
      | field decl =>
          rw [List.filter_cons_of_pos rfl, membersAnchors]
          exact (declaration decl true).append ih
      | method decl => exact ih
      | nested decl => exact ih

mutual

theorem classDecl : (decl : ClassDecl) →
    Placed (classChecks decl) (ClassDecl.anchors (ClassDecl.fieldsFirst decl))
  | ⟨_, _, list, _⟩ => by
      rw [classChecks, ClassDecl.fieldsFirst, ClassDecl.anchors, membersAnchors_append]
      exact skip _ ((fields list).append (members list)).scope

theorem members : (list : List Member) →
    Placed (memberChecks list) (membersAnchors (otherMembers list))
  | [] => by
      rw [memberChecks, otherMembers, membersAnchors]
      exact nil
  | .field _ :: rest => by
      rw [memberChecks, otherMembers]
      exact members rest
  | .method decl :: rest => by
      rw [memberChecks, otherMembers, membersAnchors]
      exact (method decl).append (members rest)
  | .nested decl :: rest => by
      rw [memberChecks, otherMembers, membersAnchors]
      exact (classDecl decl).append (members rest)

end

theorem program (program : Program) : Placed program.checks program.fieldsFirst.anchors := by
  rw [Program.anchors, Program.fieldsFirst, List.flatMap_map]
  refine flatMap fun item _ => ?_
  cases item with
  | declaration decl => exact classDecl decl
  | statement s => exact stmt .none s

end Placed

end MiniJava
