import MiniJava.Proofs.Diagnostics.Scopes
import MiniJava.Proofs.Lowering.Meanings

/-!
# What names mean to the checker

The meanings of the names that reach the emitted text, each in the table that the checker has
where the name occurs, in the order of the emitted text. Within an expression no name changes its
meaning.
-/

namespace MiniJava

namespace Inspection

variable (place : Place)

def exprMeanings (inspection : Inspection) : Expr → List Meaning
  | .literal _ _ => []
  | .name name _ => [place.meaning inspection.symbols name]
  | .binary _ lhs rhs =>
    inspection.exprMeanings lhs ++ (inspection.expr lhs).after.exprMeanings rhs
  | .unary _ operand => inspection.exprMeanings operand
  | .assign target _ value position =>
    place.meaning inspection.symbols target :: (inspection.write target position).exprMeanings value
  | .step target _ _ _ => [place.meaning inspection.symbols target]

def exprsMeanings (inspection : Inspection) : List Expr → List Meaning
  | [] => []
  | first :: rest =>
    inspection.exprMeanings place first ++ (inspection.expr first).after.exprsMeanings rest

mutual

def meanings (expected : Option ValueType) (inspection : Inspection) : Stmt → List Meaning
  | .declare decl =>
    place.meaning (inspection.stmt expected (.declare decl)).symbols decl.name ::
      inspection.exprsMeanings place decl.init.toList
  | .expression e => inspection.exprMeanings place e
  | .block body => inspection.enter.bodyMeanings expected body
  | .ifElse e thenBranch elseBranch =>
    inspection.exprMeanings place e ++
      (inspection.condition .ifElse e).meanings expected thenBranch ++
      ((inspection.condition .ifElse e).stmt expected thenBranch).elseMeanings expected elseBranch
  | .whileLoop e body =>
    inspection.exprMeanings place e ++ (inspection.condition .whileLoop e).meanings expected body
  | .doWhile body e =>
    inspection.meanings expected body ++ (inspection.stmt expected body).exprMeanings place e
  | .forLoop none e update body =>
    let tested := inspection.enter.forCondition e
    inspection.enter.exprsMeanings place e.toList ++
      ((tested.exprs update).meanings expected body ++ tested.exprsMeanings place update)
  | .forLoop (some init) e update body =>
    let begun := inspection.enter.stmt expected init
    let tested := begun.forCondition e
    match RangeLoop.detect? init e update body with
    | some loop =>
      place.meaning begun.symbols loop.counter ::
        inspection.enter.exprMeanings place loop.start ++ begun.exprMeanings place loop.stop ++
        (tested.exprs update).meanings expected body
    | none =>
      inspection.enter.meanings expected init ++
        (begun.exprsMeanings place e.toList ++
          ((tested.exprs update).meanings expected body ++ tested.exprsMeanings place update))
  | .switch scrutinee cases default =>
    let entered := (inspection.expr scrutinee).after.enter
    entered.labelMeanings expected (inspection.exprMeanings place scrutinee) [] cases ++
      (entered.cases expected cases).defaultMeanings expected default
  | .tryCatch body catches cleanup =>
    let tried := (inspection.enter.stmts expected body).leave
    inspection.enter.bodyMeanings expected body ++ tried.catchMeanings expected catches ++
      (tried.catches expected catches).cleanupMeanings expected cleanup
  | .print kind args _ => inspection.exprsMeanings place (kind.shown args)
  | .returns value _ => inspection.exprsMeanings place value.toList
  | .breaks | .continues | .empty => []

def bodyMeanings (expected : Option ValueType) (inspection : Inspection) :
    List Stmt → List Meaning
  | [] => []
  | first :: rest =>
    inspection.meanings expected first ++
      (inspection.stmt expected first).bodyMeanings expected rest

def elseMeanings (expected : Option ValueType) (inspection : Inspection) :
    Option Stmt → List Meaning
  | none => []
  | some branch => inspection.meanings expected branch

def caseMeanings (expected : Option ValueType) (inspection : Inspection) :
    List Stmt → List Meaning
  | [] => []
  | .breaks :: _ => []
  | first :: rest =>
    inspection.meanings expected first ++
      (inspection.stmt expected first).caseMeanings expected rest

/-- The comparisons of a label stand in front of the statements that it shares. -/
def labelMeanings (expected : Option ValueType) (subject pending : List Meaning)
    (inspection : Inspection) : List (SwitchCase Stmt) → List Meaning
  | [] => []
  | ⟨label, body⟩ :: rest =>
    let tests := pending ++ (subject ++ inspection.exprMeanings place label)
    let compared := (inspection.expr label).after
    let checked := compared.stmts expected body
    if body.isEmpty then checked.labelMeanings expected subject tests rest
    else
      tests ++ compared.caseMeanings expected body ++
        checked.labelMeanings expected subject [] rest

def defaultMeanings (expected : Option ValueType) (inspection : Inspection) :
    Option (List Stmt) → List Meaning
  | none => []
  | some body => inspection.caseMeanings expected body

def catchMeanings (expected : Option ValueType) (inspection : Inspection) :
    List (CatchClause Stmt) → List Meaning
  | [] => []
  | ⟨exception, name, body, position⟩ :: rest =>
    let caught := inspection.enter.bound exception name position
    caught.bodyMeanings expected body ++
      (caught.stmts expected body).leave.catchMeanings expected rest

def cleanupMeanings (expected : Option ValueType) (inspection : Inspection) :
    Option (List Stmt) → List Meaning
  | none => []
  | some body => inspection.enter.bodyMeanings expected body

end

def methodMeanings (inspection : Inspection) (decl : Method) : List Meaning :=
  let expected := (decl.returnType.map ValueType.ofTypeName).getD .void
  let bound := decl.params.foldl
    (fun inspection param => inspection.bound param.type param.name param.position)
    inspection.enter
  bound.bodyMeanings { place with method := some (Lowering.kindOf decl) } (some expected) decl.body

def fieldMeanings (inspection : Inspection) : List Member → List Meaning
  | [] => []
  | .field decl :: rest =>
    let declared := inspection.declaration decl true
    place.meaning declared.symbols decl.name :: inspection.exprsMeanings place decl.init.toList ++
      declared.fieldMeanings rest
  | .method _ :: rest => inspection.fieldMeanings rest
  | .nested _ :: rest => inspection.fieldMeanings rest

mutual

def classMeanings (inspection : Inspection) : ClassDecl → List Meaning
  | ⟨_, name, members, _⟩ =>
    let place : Place := ⟨some ⟨name, inspection.enter.symbols.depth - 1⟩, none⟩
    inspection.enter.fieldMeanings place members ++
      (inspection.enter.fields members).memberMeanings place members

def memberMeanings (place : Place) (inspection : Inspection) : List Member → List Meaning
  | [] => []
  | .field _ :: rest => inspection.memberMeanings place rest
  | .method decl :: rest =>
    inspection.methodMeanings place decl ++ (inspection.method decl).memberMeanings place rest
  | .nested decl :: rest =>
    inspection.classMeanings decl ++ (inspection.classDecl decl).memberMeanings place rest

end

def itemMeanings (inspection : Inspection) : Item → List Meaning
  | .declaration decl => inspection.classMeanings decl
  | .statement s => inspection.meanings .outside none s

def itemsMeanings (inspection : Inspection) : List Item → List Meaning
  | [] => []
  | first :: rest => inspection.itemMeanings first ++ (inspection.item first).itemsMeanings rest

theorem exprMeanings_eq (e : Expr) (inspection : Inspection) :
    inspection.exprMeanings place e = place.meanings inspection.symbols e.names := by
  induction e generalizing inspection with
  | literal value position => rfl
  | name word position => rfl
  | binary op lhs rhs ihl ihr =>
      rw [exprMeanings, ihl, ihr, place.meanings_of_bare (expr_bare lhs inspection), Expr.names,
        Place.meanings_append]
  | unary op operand ih => exact ih inspection
  | assign target op value position ih =>
      rw [exprMeanings, ih, symbols_write]
      rfl
  | step target op form position => rfl

theorem exprsMeanings_eq (list : List Expr) (inspection : Inspection) :
    inspection.exprsMeanings place list = place.meanings inspection.symbols (namesIn list) := by
  induction list generalizing inspection with
  | nil => rfl
  | cons first rest ih =>
      rw [exprsMeanings, ih, exprMeanings_eq, place.meanings_of_bare (expr_bare first inspection)]
      exact (place.meanings_append _ first.names (namesIn rest)).symm

end Inspection

/-- What the names in a program that reach the emitted text mean where the checker comes upon
them. -/
def Program.checkedMeanings (program : Program) : List Meaning :=
  Inspection.start.itemsMeanings program.items

end MiniJava
