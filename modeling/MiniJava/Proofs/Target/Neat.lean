import MiniJava.Proofs.Python.Layout
import MiniJava.Target.Module

/-!
# Neat code

Emitted code is neat if its texts keep to their lines: no name, literal or expression has a line
break, begins with a blank or ends in a colon. What is put together from plain texts is plain.
-/

namespace MiniJava.Target

open Python

namespace Expr

def Neat : Expr → Prop
  | number text | name text => Plain text
  | string text => Plain ("\"" ++ text ++ "\"")
  | char text => Plain ("'" ++ text ++ "'")
  | bool _ | noneValue => True
  | member holder text => Plain holder ∧ Plain text
  | str operand | negation operand | signed _ operand => operand.Neat
  | binary _ lhs rhs => lhs.Neat ∧ rhs.Neat

theorem plain_enclose {text : String} (h : Plain text) (parent : Nat) (onRight : Bool)
    (own : Nat) : Plain (enclose parent onRight own text) := by
  have hopen : Plain "(" := plain_of_isPlain (by decide)
  have hclose : Plain ")" := plain_of_isPlain (by decide)
  unfold enclose
  split
  · exact hopen.around text h.unbroken hclose
  · exact h

theorem plain_toText {e : Expr} (h : e.Neat) : Plain e.toText := by
  induction e with
  | number text | name text | string text | char text => exact h
  | bool value =>
      cases value with
      | true => exact plain_of_isPlain (by decide)
      | false => exact plain_of_isPlain (by decide)
  | noneValue => exact plain_of_isPlain (by decide)
  | member holder text => exact h.1.around "." (by decide) h.2
  | str operand ih =>
      have hcall : Plain "str(" :=
        plain_of_isPlain (by decide)
      have hclose : Plain ")" := plain_of_isPlain (by decide)
      exact hcall.around _ (ih h).unbroken hclose
  | negation operand ih =>
      have hnot : Plain "not " :=
        plain_of_isPlain (by decide)
      exact hnot.append (plain_enclose (ih h) _ _ _)
  | signed sign operand ih =>
      have hsign : Plain sign.symbol := by
        cases sign with
        | minus => exact plain_of_isPlain (by decide)
        | plus => exact plain_of_isPlain (by decide)
        | invert => exact plain_of_isPlain (by decide)
      exact hsign.append (plain_enclose (ih h) _ _ _)
  | binary op lhs rhs ihl ihr =>
      have hop : '\n' ∉ (" " ++ op.symbol ++ " ").toList := by cases op <;> decide
      have hjoined := (plain_enclose (ihl h.1) op.precedence false lhs.precedence).around _ hop
        (plain_enclose (ihr h.2) op.precedence true rhs.precedence)
      rw [toText]
      simpa only [String.append_assoc] using hjoined

end Expr

mutual

def Stmt.Neat : Stmt → Prop
  | .ifElse condition body alternative =>
    Plain condition.toText ∧ allNeat body ∧ alternative.Neat
  | .whileLoop condition body => Plain condition.toText ∧ allNeat body
  | .forRange counter start stop _ body =>
    Plain counter.toText ∧ Plain start.toText ∧ Plain stop.toText ∧ allNeat body
  | .tryExcept body handlers none => allNeat body ∧ handlersNeat handlers ∧ handlers ≠ []
  | .tryExcept body handlers (some cleanup) =>
    allNeat body ∧ handlersNeat handlers ∧ allNeat cleanup
  | .function _ name params body => Plain name ∧ (∀ param ∈ params, Plain param) ∧ allNeat body
  | .classDef name body => Plain name ∧ allNeat body
  | s@(.assign _ _) | s@(.update _ _ _) | s@(.expression _) | s@(.print _ _)
  | s@(.printFormatted _ _) | s@(.returns _) | s@.breaks | s@.continues =>
    ∀ line ∈ s.lines 0, Plain line.text

def allNeat : List Stmt → Prop
  | [] => True
  | first :: rest => first.Neat ∧ allNeat rest

def Alternative.Neat : Alternative → Prop
  | .nothing => True
  | .elseIf condition body alternative =>
    Plain condition.toText ∧ allNeat body ∧ alternative.Neat
  | .otherwise body => allNeat body

def handlersNeat : List (Handler Stmt) → Prop
  | [] => True
  | ⟨exception, name, body⟩ :: rest =>
    Plain exception ∧ Plain name ∧ allNeat body ∧ handlersNeat rest

end

/-- A statement of one line is neat if its line is. -/
example (value : Expr) (h : Plain value.toText) : (Stmt.expression value).Neat := by
  rw [Stmt.Neat, Stmt.lines]
  exact List.forall_mem_singleton.mpr h

theorem neat_assign {target value : Expr} (htarget : target.Neat) (hvalue : value.Neat) :
    (Stmt.assign target value).Neat := by
  rw [Stmt.Neat, Stmt.lines, List.forall_mem_singleton]
  exact (Expr.plain_toText htarget).around " = " (by decide) (Expr.plain_toText hvalue)

theorem neat_update {target value : Expr} (op : UpdateOp) (htarget : target.Neat)
    (hvalue : value.Neat) : (Stmt.update target op value).Neat := by
  have hop : '\n' ∉ (" " ++ op.symbol ++ " ").toList := by
    cases op with
    | floorDiv => decide
    | applying op => cases op <;> decide
  have hline := (Expr.plain_toText htarget).around _ hop (Expr.plain_toText hvalue)
  rw [Stmt.Neat, Stmt.lines, List.forall_mem_singleton]
  simpa only [String.append_assoc] using hline

theorem neat_expression {e : Expr} (h : e.Neat) : (Stmt.expression e).Neat := by
  rw [Stmt.Neat, Stmt.lines, List.forall_mem_singleton]
  exact Expr.plain_toText h

theorem neat_returns {value : Option Expr} (h : ∀ e ∈ value, e.Neat) :
    (Stmt.returns value).Neat := by
  cases value with
  | none =>
      rw [Stmt.Neat, Stmt.lines, List.forall_mem_singleton]
      exact plain_of_isPlain (by decide)
  | some e =>
      have hreturn : Plain "return " := plain_of_isPlain (by decide)
      rw [Stmt.Neat, Stmt.lines, List.forall_mem_singleton]
      exact hreturn.append (Expr.plain_toText (h e rfl))

theorem unbroken_joined {separator : String} {texts : List String}
    (hseparator : '\n' ∉ separator.toList) (h : ∀ text ∈ texts, '\n' ∉ text.toList) :
    '\n' ∉ (joined separator texts).toList := by
  induction texts with
  | nil => simp [joined]
  | cons first rest ih =>
      rw [List.forall_mem_cons] at h
      cases rest with
      | nil => simpa [joined] using h.1
      | cons next rest =>
          have hrest := ih h.2
          rw [joined, String.intercalate_cons_cons, String.toList_append, String.toList_append]
          simp only [List.mem_append, not_or]
          exact ⟨⟨h.1, hseparator⟩, hrest⟩

theorem unbroken_texts {values : List Expr} (h : ∀ e ∈ values, e.Neat) :
    ∀ text ∈ values.map Expr.toText, '\n' ∉ text.toList := by
  rw [List.forall_mem_map]
  exact fun e he => (Expr.plain_toText (h e he)).unbroken

theorem neat_print {value : Option Expr} (newline : Bool) (h : ∀ e ∈ value, e.Neat) :
    (Stmt.print value newline).Neat := by
  have hopen : Plain "print(" := plain_of_isPlain (by decide)
  have hclose : Plain ")" := plain_of_isPlain (by decide)
  rw [Stmt.Neat, Stmt.lines, List.forall_mem_singleton, printCall]
  refine hopen.around _ (unbroken_joined (by decide) ?_) hclose
  rw [List.forall_mem_append]
  constructor
  · intro text htext
    obtain ⟨e, he, rfl⟩ := Option.map_eq_some_iff.mp (Option.mem_toList.mp htext)
    exact (Expr.plain_toText (h e he)).unbroken
  · cases newline <;> decide

theorem unbroken_tuple {values : List Expr} (h : ∀ e ∈ values, e.Neat) :
    '\n' ∉ (tuple values).toList := by
  unfold tuple
  split
  · next value =>
      have hvalue := (Expr.plain_toText (h value (List.mem_singleton_self value))).unbroken
      simp [hvalue]
  · have hjoined : '\n' ∉ (joined ", " (values.map Expr.toText)).toList :=
      unbroken_joined (by decide) (unbroken_texts h)
    simp only [String.toList_append, List.mem_append, not_or]
    exact ⟨⟨by decide, hjoined⟩, by decide⟩

theorem neat_printFormatted {format : Expr} {values : List Expr} (hformat : format.Neat)
    (hvalues : ∀ e ∈ values, e.Neat) : (Stmt.printFormatted format values).Neat := by
  have hopen : Plain "print(" := plain_of_isPlain (by decide)
  have hclose : Plain ", end=\"\")" := plain_of_isPlain (by decide)
  have hmiddle : '\n' ∉ (" % " ++ tuple values).toList := by
    rw [String.toList_append, List.mem_append, not_or]
    exact ⟨by decide, unbroken_tuple hvalues⟩
  have hfront := hopen.append (Expr.plain_enclose (Expr.plain_toText hformat) 10 false
    format.precedence)
  have hline := hfront.around _ hmiddle hclose
  rw [Stmt.Neat, Stmt.lines, List.forall_mem_singleton]
  simpa only [String.append_assoc] using hline

theorem neat_breaks : Stmt.breaks.Neat := by
  rw [Stmt.Neat, Stmt.lines, List.forall_mem_singleton]
  exact plain_of_isPlain (by decide)

theorem neat_continues : Stmt.continues.Neat := by
  rw [Stmt.Neat, Stmt.lines, List.forall_mem_singleton]
  exact plain_of_isPlain (by decide)

theorem allNeat_append {front rest : List Stmt} (hfront : allNeat front) (hrest : allNeat rest) :
    allNeat (front ++ rest) := by
  induction front with
  | nil => exact hrest
  | cons first front ih =>
      rw [allNeat] at hfront
      rw [List.cons_append, allNeat]
      exact ⟨hfront.1, ih hfront.2⟩

theorem allNeat_single {s : Stmt} (h : s.Neat) : allNeat [s] := by
  rw [allNeat, allNeat]
  exact ⟨h, True.intro⟩

def Chunk.Neat : Chunk → Prop
  | definition stmt => stmt.Neat
  | script body => allNeat body

structure Module.Neat (m : Module) : Prop where
  chunks : ∀ chunk ∈ m.chunks, chunk.Neat
  entry : ∀ name ∈ m.entry, Plain name

end MiniJava.Target
