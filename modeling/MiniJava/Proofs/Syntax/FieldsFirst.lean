import MiniJava.Proofs.Syntax.Anchors
import Mathlib.Data.List.Perm.Basic

/-!
# Fields in front

The fields of a class are in scope in all of its methods and nested classes, wherever they are
written, so whoever goes through a class comes upon its fields first. This is the order of the text
if the fields of every class are written in front of its other members.
-/

namespace MiniJava

def Member.isField : Member → Bool
  | .field _ => true
  | _ => false

mutual

def ClassDecl.fieldsFirst : ClassDecl → ClassDecl
  | ⟨modifiers, name, members, position⟩ =>
    ⟨modifiers, name, members.filter Member.isField ++ otherMembers members, position⟩

def otherMembers : List Member → List Member
  | [] => []
  | .field _ :: rest => otherMembers rest
  | .method decl :: rest => .method decl :: otherMembers rest
  | .nested decl :: rest => .nested (ClassDecl.fieldsFirst decl) :: otherMembers rest

end

def Item.fieldsFirst : Item → Item
  | .declaration decl => .declaration (ClassDecl.fieldsFirst decl)
  | .statement s => .statement s

def Program.fieldsFirst (program : Program) : Program := ⟨program.items.map Item.fieldsFirst⟩

theorem membersAnchors_append (members more : List Member) :
    membersAnchors (members ++ more) = membersAnchors members ++ membersAnchors more := by
  induction members with
  | nil =>
      rw [List.nil_append, membersAnchors]
      rfl
  | cons member rest ih =>
      cases member <;> rw [List.cons_append, membersAnchors, membersAnchors, ih, List.append_assoc]

mutual

theorem ClassDecl.anchors_fieldsFirst : (decl : ClassDecl) →
    (ClassDecl.anchors (ClassDecl.fieldsFirst decl)).Perm (ClassDecl.anchors decl)
  | ⟨_, _, members, _⟩ => by
      rw [ClassDecl.fieldsFirst, ClassDecl.anchors, ClassDecl.anchors, membersAnchors_append]
      exact (otherMembers_anchors members).cons _

theorem otherMembers_anchors : (members : List Member) →
    (membersAnchors (members.filter Member.isField) ++ membersAnchors (otherMembers members)).Perm
      (membersAnchors members)
  | [] => by
      rw [otherMembers, List.filter_nil, membersAnchors]
      exact .refl _
  | .field decl :: rest => by
      rw [List.filter_cons_of_pos rfl, otherMembers, membersAnchors, membersAnchors,
        List.append_assoc]
      exact (otherMembers_anchors rest).append_left decl.anchors
  | .method decl :: rest => by
      rw [List.filter_cons_of_neg Bool.false_ne_true, otherMembers, membersAnchors, membersAnchors]
      exact (List.perm_append_comm_assoc _ _ _).trans
        ((otherMembers_anchors rest).append_left decl.anchors)
  | .nested decl :: rest => by
      rw [List.filter_cons_of_neg Bool.false_ne_true, otherMembers, membersAnchors, membersAnchors]
      exact (List.perm_append_comm_assoc _ _ _).trans
        ((ClassDecl.anchors_fieldsFirst decl).append (otherMembers_anchors rest))

end

theorem Program.anchors_fieldsFirst (program : Program) :
    program.fieldsFirst.anchors.Perm program.anchors := by
  rw [anchors, fieldsFirst, List.flatMap_map, anchors]
  refine List.Perm.flatMap_left _ fun item _ => ?_
  cases item with
  | declaration decl => exact ClassDecl.anchors_fieldsFirst decl
  | statement s => exact .refl _

def Expr.lastPosition : Expr → Position
  | .literal _ position | .name _ position | .step _ _ _ position => position
  | .binary _ _ rhs => rhs.lastPosition
  | .unary _ operand => operand.lastPosition
  | .assign _ _ value _ => value.lastPosition

theorem Expr.positions_eq_concat (e : Expr) :
    ∃ front, e.anchors.map Anchor.position = front ++ [e.lastPosition] := by
  induction e with
  | literal value position => exact ⟨[], rfl⟩
  | name word position => exact ⟨[], rfl⟩
  | binary op lhs rhs _ ih =>
      obtain ⟨front, hfront⟩ := ih
      exact ⟨lhs.anchors.map Anchor.position ++ front, by
        rw [anchors, List.map_append, hfront, List.append_assoc, lastPosition]⟩
  | unary op operand ih => exact ih
  | assign target op value position ih =>
      obtain ⟨front, hfront⟩ := ih
      exact ⟨position :: front, congrArg (position :: ·) hfront⟩
  | step target op form position => exact ⟨[], rfl⟩

end MiniJava
