import MiniJava.Proofs.Lowering.Restored
import MiniJava.Proofs.Lowering.Writing

/-!
# The context of an emitter

Whatever an emitter comes upon in a statement, a method or a class, behind it the emitter stands
where it stood in front of it, and what it has written is left.
-/

namespace MiniJava

open Target (Line)
open Target.Stmt (allLines lines)

/-- The emitter `after` stands where `emitter` stands, with declarations at most in the innermost
scope, and has the text that `emitter` has with whole lines behind it. -/
structure Emitter.Restored (emitter after : Emitter) : Prop where
  level : after.level = emitter.level
  depth : after.symbols.depth = emitter.symbols.depth
  outer : after.symbols.enclosing = emitter.symbols.enclosing
  classes : after.classes = emitter.classes
  method : after.method = emitter.method
  text : ∃ added, after.text = emitter.text ++ added ∧
    (added = "" ∨ ∃ front, added = front ++ "\n")

namespace Emitting

variable {α β : Type}

theorem join_lines (list : List Line) : String.join (list.map Line.toText) = "" ∨
    ∃ front, String.join (list.map Line.toText) = front ++ "\n" := by
  rcases List.eq_nil_or_concat list with rfl | ⟨front, last, rfl⟩
  · exact .inl rfl
  · refine .inr ⟨String.join (front.map Line.toText) ++
      (String.join (List.replicate last.level "    ") ++ last.text), ?_⟩
    rw [List.concat_eq_append, List.map_append, String.join_append, List.map_singleton,
      String.append_assoc]
    rfl

theorem Emitted.symbols_eq {emitter : Emitter} {lines : α → List Line} {result : α → β}
    {low : Except Failure α × SymbolTable} {emitted : Except Failure β × Emitter}
    (h : Emitted emitter [] lines result low emitted) : emitted.2.symbols = low.2 := by
  cases h with
  | done => rfl
  | failed => rfl

theorem Emitted.restored {emitter : Emitter} {lines : α → List Line} {result : α → β}
    {low : Except Failure α × SymbolTable} {emitted : Except Failure β × Emitter}
    (h : Emitted emitter [] lines result low emitted)
    (houter : low.2.enclosing = emitter.symbols.enclosing) : emitter.Restored emitted.2 := by
  have hbehind : ∃ more, emitted.2 = emitter.behind more low.2 := by
    cases h with
    | done => exact ⟨_, rfl⟩
    | failed => exact ⟨_, rfl⟩
  obtain ⟨more, hmore⟩ := hbehind
  rw [hmore]
  refine ⟨rfl, ?_, houter, rfl, rfl, _, rfl, join_lines more⟩
  rw [SymbolTable.depth, SymbolTable.depth]
  exact congrArg (List.length · + 1) houter

/-- Behind a statement, a method or a class, also one that cannot be lowered, an emitter stands
where it stood: on its level, in its classes and method, in scopes of which only the innermost may
have got declarations, behind a method or a class not even this one. Its text has got whole lines,
namely those of what the statement, method or class is lowered to, or some before the first
construct that cannot be lowered. What is written for a program is the text that it becomes. -/
theorem context_restored (emitter : Emitter) :
    (∀ shared s, emitter.Restored ((stmt shared s).outcome emitter).2 ∧
      Emitted emitter [] (allLines emitter.level) (fun _ => ())
        ((Lowering.stmt emitter.place shared s).outcome emitter.symbols)
        ((stmt shared s).outcome emitter)) ∧
    (∀ decl, emitter.Restored ((method decl).outcome emitter).2 ∧
      ((method decl).outcome emitter).2.symbols = emitter.symbols ∧
      Emitted emitter [] (lines emitter.level) (fun _ => ())
        ((Lowering.method emitter.place decl).outcome emitter.symbols)
        ((method decl).outcome emitter)) ∧
    (∀ decl, emitter.Restored ((classDecl decl).outcome emitter).2 ∧
      ((classDecl decl).outcome emitter).2.symbols = emitter.symbols ∧
      Emitted emitter [] (lines emitter.level) (fun _ => ())
        ((Lowering.classDecl decl).outcome emitter.symbols)
        ((classDecl decl).outcome emitter)) ∧
    ∀ source : Program, source.emitted = source.toPython := by
  refine ⟨fun shared s => ?ofStatement, fun decl => ?ofMethod, fun decl => ?ofClass,
    Program.emitted_eq⟩
  case ofStatement =>
    have h := stmt_emits emitter.place emitter.level shared s emitter rfl rfl
    exact ⟨h.restored (Lowering.stmt_stays emitter.place shared s emitter.symbols), h⟩
  case ofMethod =>
    have h := method_emits emitter.place emitter.level decl emitter rfl rfl
    have htable := Lowering.method_reads emitter.place decl emitter.symbols
    exact ⟨h.restored (congrArg SymbolTable.enclosing htable), h.symbols_eq.trans htable, h⟩
  case ofClass =>
    have h := class_emits emitter.place emitter.level decl emitter rfl rfl
    have htable := Lowering.classDecl_reads decl emitter.symbols
    exact ⟨h.restored (congrArg SymbolTable.enclosing htable), h.symbols_eq.trans htable, h⟩

/-- What stands in front of a shift that cannot be lowered is written, and the level is as it was. -/
example :
    let shift : Expr := .binary .ushr (.name "a" ⟨1, 20⟩) (.name "b" ⟨1, 26⟩)
    let loop : Stmt := .whileLoop (.name "a" ⟨1, 8⟩) (.block [.continues, .expression shift])
    (stmt false loop).outcome { Emitter.start with level := 1 } =
      (.error (.untranslatable ⟨.unsignedShift, ⟨1, 20⟩⟩),
        { Emitter.start with level := 1, text := "    while a:\n        continue\n" }) := rfl

end Emitting

end MiniJava
