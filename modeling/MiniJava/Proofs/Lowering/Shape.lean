import MiniJava.Syntax.Program
import MiniJava.Target.Module

/-!
# Loops, switches and breaks

A `break` leaves the innermost loop or switch around it, but emitted code has no switches, and its
`break` leaves the innermost loop. The shape of a program keeps its loops and switches and the
breaks in them, the outline of a module its loops and breaks.
-/

namespace MiniJava

namespace Target

/-- The breaks and loops of emitted statements, in order; a function or class is a scope that no
break leaves. -/
inductive Outline where
  | done
  | exit (rest : Outline)
  | loop (body rest : Outline)
  | scope (body rest : Outline)
deriving DecidableEq, Repr

namespace Outline

def append : Outline → Outline → Outline
  | done, tail => tail
  | exit rest, tail => exit (rest.append tail)
  | loop body rest, tail => loop body (rest.append tail)
  | scope body rest, tail => scope body (rest.append tail)

instance : Append Outline := ⟨append⟩

@[simp] theorem done_append (tail : Outline) : done ++ tail = tail := rfl

@[simp] theorem exit_append (rest tail : Outline) : exit rest ++ tail = exit (rest ++ tail) := rfl

@[simp] theorem loop_append (body rest tail : Outline) :
    loop body rest ++ tail = loop body (rest ++ tail) := rfl

@[simp] theorem scope_append (body rest tail : Outline) :
    scope body rest ++ tail = scope body (rest ++ tail) := rfl

@[simp] theorem append_done (o : Outline) : o ++ done = o := by
  induction o with
  | done => rfl
  | exit _ ih => rw [exit_append, ih]
  | loop _ _ _ ih => rw [loop_append, ih]
  | scope _ _ _ ih => rw [scope_append, ih]

theorem append_assoc (o p q : Outline) : o ++ p ++ q = o ++ (p ++ q) := by
  induction o with
  | done => rfl
  | exit _ ih => rw [exit_append, exit_append, ih, exit_append]
  | loop _ _ _ ih => rw [loop_append, loop_append, ih, loop_append]
  | scope _ _ _ ih => rw [scope_append, scope_append, ih, scope_append]

/-- The number of breaks. -/
def exits : Outline → Nat
  | done => 0
  | exit rest => rest.exits + 1
  | loop body rest | scope body rest => body.exits + rest.exits

@[simp] theorem exits_append (o p : Outline) : (o ++ p).exits = o.exits + p.exits := by
  induction o with
  | done => simp [exits]
  | exit _ ih =>
      rw [exit_append, exits, exits, ih]
      omega
  | loop _ _ _ ih | scope _ _ _ ih =>
      simp only [loop_append, scope_append, exits, ih]
      omega

end Outline

mutual

def Stmt.outline : Stmt → Outline
  | .ifElse _ body alternative => allOutline body ++ alternative.outline
  | .whileLoop _ body | .forRange _ _ _ _ body => .loop (allOutline body) .done
  | .tryExcept body handlers none => allOutline body ++ handlersOutline handlers
  | .tryExcept body handlers (some cleanup) =>
    allOutline body ++ handlersOutline handlers ++ allOutline cleanup
  | .breaks => .exit .done
  | .function _ _ _ body | .classDef _ body => .scope (allOutline body) .done
  | _ => .done

def allOutline : List Stmt → Outline
  | [] => .done
  | first :: rest => first.outline ++ allOutline rest

def Alternative.outline : Alternative → Outline
  | .nothing => .done
  | .elseIf _ body alternative => allOutline body ++ alternative.outline
  | .otherwise body => allOutline body

def handlersOutline : List (Handler Stmt) → Outline
  | [] => .done
  | ⟨_, _, body⟩ :: rest => allOutline body ++ handlersOutline rest

end

def Chunk.outline : Chunk → Outline
  | definition stmt => stmt.outline
  | script body => allOutline body

def chunksOutline : List Chunk → Outline
  | [] => .done
  | first :: rest => first.outline ++ chunksOutline rest

def Module.outline (m : Module) : Outline := chunksOutline m.chunks

theorem allOutline_append (front back : List Stmt) :
    allOutline (front ++ back) = allOutline front ++ allOutline back := by
  induction front with
  | nil => rfl
  | cons first front ih => rw [List.cons_append, allOutline, allOutline, ih, Outline.append_assoc]

end Target

/-- The breaks, loops and switches of statements, in order. A `do` loop has a test at its end; a
method or class is a scope that no break leaves. -/
inductive Shape where
  | done
  | jump (rest : Shape)
  | test (rest : Shape)
  | loop (body rest : Shape)
  | switch (body rest : Shape)
  | scope (body rest : Shape)
deriving DecidableEq, Repr

namespace Shape

def append : Shape → Shape → Shape
  | done, tail => tail
  | jump rest, tail => jump (rest.append tail)
  | test rest, tail => test (rest.append tail)
  | loop body rest, tail => loop body (rest.append tail)
  | switch body rest, tail => switch body (rest.append tail)
  | scope body rest, tail => scope body (rest.append tail)

instance : Append Shape := ⟨append⟩

open Target (Outline)

/-- The outline in which every break is left, and every switch is forgotten. -/
def forgetSwitches : Shape → Outline
  | done => .done
  | jump rest => .exit rest.forgetSwitches
  | test rest => .exit rest.forgetSwitches
  | loop body rest => .loop body.forgetSwitches rest.forgetSwitches
  | switch body rest => body.forgetSwitches ++ rest.forgetSwitches
  | scope body rest => .scope body.forgetSwitches rest.forgetSwitches

/-- The outline in which the breaks keep their targets: one whose innermost loop or switch is a
loop leaves that loop, and no other break is left. -/
def keepTargets (inLoop : Bool) : Shape → Outline
  | done => .done
  | jump rest => if inLoop then .exit (rest.keepTargets inLoop) else rest.keepTargets inLoop
  | test rest => .exit (rest.keepTargets inLoop)
  | loop body rest => .loop (body.keepTargets true) (rest.keepTargets inLoop)
  | switch body rest => body.keepTargets false ++ rest.keepTargets inLoop
  | scope body rest => .scope (body.keepTargets false) (rest.keepTargets inLoop)

/-- The number of breaks whose innermost loop or switch is no loop. -/
def misplaced (inLoop : Bool) : Shape → Nat
  | done => 0
  | jump rest => (if inLoop then 0 else 1) + rest.misplaced inLoop
  | test rest => rest.misplaced inLoop
  | loop body rest => body.misplaced true + rest.misplaced inLoop
  | switch body rest | scope body rest => body.misplaced false + rest.misplaced inLoop

@[simp] theorem forgetSwitches_append (s t : Shape) :
    (s ++ t).forgetSwitches = s.forgetSwitches ++ t.forgetSwitches := by
  change (s.append t).forgetSwitches = _
  induction s with
  | done => rfl
  | jump _ ih | test _ ih | loop _ _ _ ih | scope _ _ _ ih => simp [append, forgetSwitches, ih]
  | switch _ _ _ ih => simp [append, forgetSwitches, ih, Outline.append_assoc]

/-- Each misplaced break is one that should not be left. -/
theorem exits_forgetSwitches (s : Shape) (inLoop : Bool) :
    s.forgetSwitches.exits = (s.keepTargets inLoop).exits + s.misplaced inLoop := by
  induction s generalizing inLoop with
  | done => rfl
  | jump _ ih =>
      have hrest := ih inLoop
      cases inLoop with
      | false =>
          simp only [forgetSwitches, keepTargets, misplaced, Outline.exits, Bool.false_eq_true,
            if_false]
          omega
      | true =>
          simp only [forgetSwitches, keepTargets, misplaced, Outline.exits, if_true]
          omega
  | test _ ih =>
      have hrest := ih inLoop
      simp only [forgetSwitches, keepTargets, misplaced, Outline.exits]
      omega
  | loop _ _ ihbody ih =>
      have hbody := ihbody true
      have hrest := ih inLoop
      simp only [forgetSwitches, keepTargets, misplaced, Outline.exits]
      omega
  | switch _ _ ihbody ih | scope _ _ ihbody ih =>
      have hbody := ihbody false
      have hrest := ih inLoop
      simp only [forgetSwitches, keepTargets, misplaced, Outline.exits, Outline.exits_append]
      omega

theorem forgetSwitches_eq_keepTargets_iff (s : Shape) (inLoop : Bool) :
    s.forgetSwitches = s.keepTargets inLoop ↔ s.misplaced inLoop = 0 := by
  constructor
  · intro heq
    have hexits := s.exits_forgetSwitches inLoop
    rw [heq] at hexits
    omega
  · intro hnone
    induction s generalizing inLoop with
    | done => rfl
    | jump _ ih =>
        cases inLoop with
        | false => simp [misplaced] at hnone
        | true =>
            simp only [misplaced, if_true, Nat.zero_add] at hnone
            simp [forgetSwitches, keepTargets, ih true hnone]
    | test _ ih => simp [forgetSwitches, keepTargets, ih inLoop hnone]
    | loop _ _ ihbody ih =>
        obtain ⟨hbody, hrest⟩ := Nat.add_eq_zero_iff.mp hnone
        simp [forgetSwitches, keepTargets, ihbody true hbody, ih inLoop hrest]
    | switch _ _ ihbody ih | scope _ _ ihbody ih =>
        obtain ⟨hbody, hrest⟩ := Nat.add_eq_zero_iff.mp hnone
        simp [forgetSwitches, keepTargets, ihbody false hbody, ih inLoop hrest]

end Shape

mutual

def Stmt.shape : Stmt → Shape
  | .block body => allShape body
  | .ifElse _ thenBranch elseBranch => thenBranch.shape ++ elseShape elseBranch
  | .whileLoop _ body | .forLoop none _ _ body => .loop body.shape .done
  | .doWhile body _ => .loop (body.shape ++ .test .done) .done
  | .forLoop (some init) _ _ body => init.shape ++ .loop body.shape .done
  | .switch _ cases default => .switch (casesShape cases ++ defaultShape default) .done
  | .tryCatch body catches cleanup =>
    allShape body ++ catchesShape catches ++ cleanupShape cleanup
  | .breaks => .jump .done
  | _ => .done

def allShape : List Stmt → Shape
  | [] => .done
  | first :: rest => first.shape ++ allShape rest

def elseShape : Option Stmt → Shape
  | none => .done
  | some branch => branch.shape

def labelShape : List Stmt → Shape
  | [] => .done
  | .breaks :: _ => .done
  | first :: rest => first.shape ++ labelShape rest

def casesShape : List (SwitchCase Stmt) → Shape
  | [] => .done
  | ⟨_, body⟩ :: rest => labelShape body ++ casesShape rest

def defaultShape : Option (List Stmt) → Shape
  | none => .done
  | some body => labelShape body

def catchesShape : List (CatchClause Stmt) → Shape
  | [] => .done
  | ⟨_, _, body, _⟩ :: rest => allShape body ++ catchesShape rest

def cleanupShape : Option (List Stmt) → Shape
  | none => .done
  | some body => allShape body

end

mutual

def ClassDecl.shape : ClassDecl → Shape
  | ⟨_, _, members, _⟩ => .scope (membersShape members) .done

def membersShape : List Member → Shape
  | [] => .done
  | .field _ :: rest => membersShape rest
  | .method decl :: rest => .scope (allShape decl.body) (membersShape rest)
  | .nested decl :: rest => ClassDecl.shape decl ++ membersShape rest

end

def Item.shape : Item → Shape
  | .declaration decl => ClassDecl.shape decl
  | .statement stmt => stmt.shape

def itemsShape : List Item → Shape
  | [] => .done
  | first :: rest => first.shape ++ itemsShape rest

def Program.shape (program : Program) : Shape := itemsShape program.items

end MiniJava
