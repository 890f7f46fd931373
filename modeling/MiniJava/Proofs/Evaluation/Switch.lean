import MiniJava.Proofs.Lowering.Shape
import MiniJava.Proofs.Target.Path

/-!
# Runs of switches

A switch goes on from the label that matches its subject, through all that is written behind it, to
the first `break`. It runs no more than the first body from that label on if each body is closed:
if it has a `break` of its own wherever another body follows.
-/

namespace MiniJava

open Target (Exit)

namespace Switch

/-- The statements before the first `break`. -/
def untilBreak : List Stmt → List Stmt
  | [] => []
  | .breaks :: _ => []
  | first :: rest => first :: untilBreak rest

/-- All that is written from a label on, with the default at the end. -/
def entered (labels : List (SwitchCase Stmt)) (default : Option (List Stmt)) : List Stmt :=
  labels.flatMap SwitchCase.body ++ default.getD []

/-- The first body from a label on that has statements, or else that of the default. -/
def firstBody (default : Option (List Stmt)) : List (SwitchCase Stmt) → List Stmt
  | [] => default.getD []
  | ⟨_, []⟩ :: rest => firstBody default rest
  | ⟨_, first :: body⟩ :: _ => first :: body

/-- What is written behind that body. -/
def behindBody (default : Option (List Stmt)) : List (SwitchCase Stmt) → List Stmt
  | [] => []
  | ⟨_, []⟩ :: rest => behindBody default rest
  | ⟨_, _ :: _⟩ :: rest => entered rest default

/-- The labels from the first one on that matches, or all of them if one before them does. -/
def fromMatch (matched : SwitchCase Stmt → Bool) (met : Bool) (labels : List (SwitchCase Stmt)) :
    List (SwitchCase Stmt) :=
  if met then labels else labels.dropWhile fun label => !matched label

/-- Every body that has statements, and has another such body or the default behind it, has a
`break` among its statements. -/
def Closed (default : Option (List Stmt)) : List (SwitchCase Stmt) → Prop
  | [] => True
  | label :: rest =>
    (label.body ≠ [] → (∃ later ∈ rest, later.body ≠ []) ∨ default.isSome →
      Stmt.breaks ∈ label.body) ∧ Closed default rest

variable {front back : List Stmt} {labels : List (SwitchCase Stmt)} {default : Option (List Stmt)}

theorem untilBreak_cons {s : Stmt} (h : s ≠ .breaks) (rest : List Stmt) :
    untilBreak (s :: rest) = s :: untilBreak rest := by
  rw [untilBreak]
  exact h

theorem untilBreak_append_of_mem (h : .breaks ∈ front) :
    untilBreak (front ++ back) = untilBreak front := by
  induction front with
  | nil => exact absurd h List.not_mem_nil
  | cons s front ih =>
      by_cases hs : s = .breaks
      · rw [hs]
        rfl
      · have hmem := (List.mem_cons.mp h).resolve_left (Ne.symm hs)
        rw [List.cons_append, untilBreak_cons hs, untilBreak_cons hs, ih hmem]

theorem untilBreak_append_of_not_mem (h : .breaks ∉ front) :
    untilBreak (front ++ back) = front ++ untilBreak back := by
  induction front with
  | nil => rfl
  | cons s front ih =>
      rw [List.mem_cons, not_or] at h
      rw [List.cons_append, untilBreak_cons (Ne.symm h.1), ih h.2, List.cons_append]

theorem untilBreak_of_not_mem {body : List Stmt} (h : .breaks ∉ body) : untilBreak body = body := by
  have hnone : untilBreak (body ++ []) = body ++ untilBreak [] := untilBreak_append_of_not_mem h
  rwa [List.append_nil, untilBreak, List.append_nil] at hnone

theorem breaks_not_mem_untilBreak (body : List Stmt) : .breaks ∉ untilBreak body := by
  induction body with
  | nil => exact List.not_mem_nil
  | cons s body ih =>
      by_cases hs : s = .breaks
      · rw [hs]
        exact List.not_mem_nil
      · rw [untilBreak_cons hs, List.mem_cons, not_or]
        exact ⟨Ne.symm hs, ih⟩

theorem mem_of_untilBreak {s : Stmt} {body : List Stmt} (h : s ∈ untilBreak body) : s ∈ body := by
  induction body with
  | nil => exact h
  | cons first body ih =>
      by_cases hs : first = .breaks
      · rw [hs] at h
        exact absurd h List.not_mem_nil
      · rw [untilBreak_cons hs] at h
        rcases List.mem_cons.mp h with rfl | hrest
        · exact List.mem_cons_self
        · exact List.mem_cons_of_mem _ (ih hrest)

theorem firstBody_append_behindBody (default : Option (List Stmt))
    (labels : List (SwitchCase Stmt)) :
    firstBody default labels ++ behindBody default labels = entered labels default := by
  induction labels with
  | nil => exact List.append_nil _
  | cons label labels ih =>
      obtain ⟨value, body⟩ := label
      cases body with
      | nil => exact ih
      | cons s body => simp [firstBody, behindBody, entered]

theorem entered_eq_nil (h : ∀ label ∈ labels, label.body = []) (hdefault : default = none) :
    entered labels default = [] := by
  rw [entered, hdefault, Option.getD_none, List.append_nil, List.flatMap_eq_nil_iff]
  exact h

theorem mem_entered_of_firstBody {s : Stmt} (h : s ∈ firstBody default labels) :
    s ∈ entered labels default := by
  rw [← firstBody_append_behindBody]
  exact List.mem_append_left _ h

/-- Of what is written from a label on, only the first body runs. -/
theorem untilBreak_entered (h : Closed default labels) :
    untilBreak (entered labels default) = untilBreak (firstBody default labels) := by
  induction labels with
  | nil => rfl
  | cons label labels ih =>
      obtain ⟨value, body⟩ := label
      obtain ⟨hbreak, hclosed⟩ := h
      cases body with
      | nil => exact ih hclosed
      | cons s body =>
          rw [← firstBody_append_behindBody]
          by_cases hmem : .breaks ∈ s :: body
          · exact untilBreak_append_of_mem hmem
          · have hlast : ¬ ((∃ later ∈ labels, later.body ≠ []) ∨ default.isSome) := fun hbehind =>
              hmem (hbreak (List.cons_ne_nil _ _) hbehind)
            have hnone : behindBody default (⟨value, s :: body⟩ :: labels) = [] := by
              refine entered_eq_nil (fun later hlater => ?_) ?_
              · exact Classical.not_not.mp fun hbody => hlast (.inl ⟨later, hlater, hbody⟩)
              · exact Option.not_isSome_iff_eq_none.mp fun hsome => hlast (.inr hsome)
            rw [hnone, List.append_nil]

theorem fromMatch_nil (matched : SwitchCase Stmt → Bool) (met : Bool) :
    fromMatch matched met [] = [] := by cases met <;> rfl

theorem fromMatch_cons (matched : SwitchCase Stmt → Bool) (met : Bool) (label : SwitchCase Stmt) :
    fromMatch matched met (label :: labels) =
      if met || matched label then label :: labels else fromMatch matched false labels := by
  cases met with
  | true => rfl
  | false =>
      rw [fromMatch, if_neg Bool.false_ne_true, List.dropWhile_cons]
      cases matched label <;> rfl

theorem Closed.behind {front back : List (SwitchCase Stmt)} (h : Closed default (front ++ back)) :
    Closed default back := by
  induction front with
  | nil => exact h
  | cons label front ih => exact ih h.2

theorem entered_append (front back : List (SwitchCase Stmt)) (default : Option (List Stmt)) :
    entered (front ++ back) default = front.flatMap SwitchCase.body ++ entered back default := by
  rw [entered, List.flatMap_append, List.append_assoc, entered]

end Switch

/-- Statements one behind another, if the ends of each are known: behind one that is done the next
one runs, and every other end is that of all. -/
inductive Sequence {α σ : Type} (ends : α → σ → Exit → σ → Prop) : List α → σ → Exit → σ → Prop
  | nil {state : σ} : Sequence ends [] state .done state
  | next {first : α} {rest : List α} {before between after : σ} {exit : Exit} :
      ends first before .done between → Sequence ends rest between exit after →
      Sequence ends (first :: rest) before exit after
  | leave {first : α} {rest : List α} {before after : σ} {exit : Exit} :
      ends first before exit after → exit ≠ .done → Sequence ends (first :: rest) before exit after

theorem sequence_singleton {α σ : Type} {ends : α → σ → Exit → σ → Prop} {s : α}
    {before after : σ} {exit : Exit} :
    Sequence ends [s] before exit after ↔ ends s before exit after := by
  constructor
  · intro h
    cases h with
    | next hfirst hrest =>
        cases hrest
        exact hfirst
    | leave hfirst _ => exact hfirst
  · intro h
    by_cases hdone : exit = .done
    · subst hdone
      exact .next h .nil
    · exact .leave h hdone

/-- The number of breaks that leave what is around the statements. -/
def Shape.jumps : Shape → Nat
  | done => 0
  | jump rest => rest.jumps + 1
  | test rest | loop _ rest | switch _ rest | scope _ rest => rest.jumps

/-- How statements can end, as far as a switch depends on it: a `break` does nothing but leave, and
a statement that has no `break` for what is around it is not left by one. -/
structure Leaving {σ : Type} (ends : Stmt → σ → Exit → σ → Prop) : Prop where
  breaks : ∀ {before after : σ} {exit : Exit},
    ends .breaks before exit after ↔ exit = .broken ∧ after = before
  others : ∀ {s : Stmt} {before after : σ}, s.shape.jumps = 0 → ¬ ends s before .broken after

/-- The statements run as those of a switch, which is done where one of them is left by a
`break`. -/
def Switched {σ : Type} (ends : Stmt → σ → Exit → σ → Prop) (body : List Stmt) (before : σ)
    (exit : Exit) (after : σ) : Prop :=
  ∃ inner, Sequence ends body before inner after ∧
    exit = if inner = .broken then .done else inner

section Switched

variable {σ : Type} {ends : Stmt → σ → Exit → σ → Prop} {body : List Stmt} {before after : σ}
  {exit : Exit}

open Switch (untilBreak untilBreak_cons)

theorem switched_cons {s : Stmt} : Switched ends (s :: body) before exit after ↔
    (∃ between, ends s before .done between ∧ Switched ends body between exit after) ∨
      ∃ inner, ends s before inner after ∧ inner ≠ .done ∧
        exit = if inner = .broken then .done else inner := by
  constructor
  · rintro ⟨inner, hrun, hexit⟩
    cases hrun with
    | next hfirst hrest => exact .inl ⟨_, hfirst, inner, hrest, hexit⟩
    | leave hfirst hleft => exact .inr ⟨inner, hfirst, hleft, hexit⟩
  · rintro (⟨between, hfirst, inner, hrest, hexit⟩ | ⟨inner, hfirst, hleft, hexit⟩)
    · exact ⟨inner, .next hfirst hrest, hexit⟩
    · exact ⟨inner, .leave hfirst hleft, hexit⟩

theorem switched_nil : Switched ends [] before exit after ↔ exit = .done ∧ after = before := by
  constructor
  · rintro ⟨inner, hrun, rfl⟩
    cases hrun
    exact ⟨rfl, rfl⟩
  · rintro ⟨rfl, rfl⟩
    exact ⟨.done, .nil, rfl⟩

theorem switched_breaks (hends : Leaving ends) :
    Switched ends (.breaks :: body) before exit after ↔ exit = .done ∧ after = before := by
  rw [switched_cons]
  constructor
  · rintro (⟨between, hfirst, -⟩ | ⟨inner, hfirst, -, rfl⟩)
    · exact Exit.noConfusion (hends.breaks.mp hfirst).1
    · obtain ⟨rfl, rfl⟩ := hends.breaks.mp hfirst
      exact ⟨rfl, rfl⟩
  · rintro ⟨rfl, rfl⟩
    exact .inr ⟨.broken, hends.breaks.mpr ⟨rfl, rfl⟩, Exit.noConfusion, rfl⟩

/-- A switch comes no further than to its first `break`. -/
theorem switched_untilBreak (hends : Leaving ends) (body : List Stmt) (before : σ) :
    Switched ends body before exit after ↔ Switched ends (untilBreak body) before exit after := by
  induction body generalizing before with
  | nil => rfl
  | cons s body ih =>
      by_cases hs : s = .breaks
      · rw [hs, untilBreak, switched_breaks hends, switched_nil]
      · rw [untilBreak_cons hs, switched_cons, switched_cons]
        simp only [ih]

/-- Statements of which no `break` leaves one run in a switch as they run elsewhere. -/
theorem switched_iff_sequence (hends : Leaving ends)
    (hlevel : ∀ s ∈ body, s.shape.jumps = 0) :
    Switched ends body before exit after ↔ Sequence ends body before exit after := by
  have hnone {inner : Exit} (hrun : Sequence ends body before inner after) : inner ≠ .broken := by
    induction hrun with
    | nil => exact Exit.noConfusion
    | next _ _ ih => exact ih fun s hs => hlevel s (List.mem_cons_of_mem _ hs)
    | leave hfirst _ =>
        rintro rfl
        exact hends.others (hlevel _ List.mem_cons_self) hfirst
  constructor
  · rintro ⟨inner, hrun, rfl⟩
    rw [if_neg (hnone hrun)]
    exact hrun
  · intro hrun
    exact ⟨exit, hrun, (if_neg (hnone hrun)).symm⟩

/-- A switch whose bodies are closed runs the first body from its label on as it would run
elsewhere, up to its first `break`. -/
theorem switched_entered (hends : Leaving ends) {labels : List (SwitchCase Stmt)}
    {default : Option (List Stmt)} (hclosed : Switch.Closed default labels)
    (hlevel : ∀ s ∈ Switch.entered labels default, s ≠ .breaks → s.shape.jumps = 0) :
    Switched ends (Switch.entered labels default) before exit after ↔
      Sequence ends (untilBreak (Switch.firstBody default labels)) before exit after := by
  rw [switched_untilBreak hends, Switch.untilBreak_entered hclosed]
  refine switched_iff_sequence hends fun s hs => ?_
  have hmem := Switch.mem_entered_of_firstBody (Switch.mem_of_untilBreak hs)
  refine hlevel s hmem fun hbreak => ?_
  exact Switch.breaks_not_mem_untilBreak _ (hbreak ▸ hs)

end Switched

end MiniJava
