import MiniJava.Lowering.Program
import MiniJava.Proofs.Lowering.Inversion
import MiniJava.Proofs.Scope.Meaning
import MiniJava.Proofs.Scope.Names

/-!
# What names mean in lowered code

The references in emitted code are the meanings of the names in the program it is made of, each in
the table that the lowering has where the name occurs. Both are listed in the order of the emitted
text: the subject of a switch occurs in each of its comparisons, and a `do` loop has its condition
behind its body.
-/

namespace MiniJava

namespace Target

/-- The names in an expression, with what they are reached through. -/
def Expr.references : Expr → List Expr
  | .name text => [.name text]
  | .member holder text => [.member holder text]
  | .str argument => argument.references
  | .negation operand => operand.references
  | .signed _ operand => operand.references
  | .binary _ lhs rhs => lhs.references ++ rhs.references
  | .number _ | .string _ | .char _ | .bool _ | .noneValue => []

mutual

/-- The references in the expressions of a statement. -/
def Stmt.references : Stmt → List Expr
  | .assign target value => target.references ++ value.references
  | .update target _ value => target.references ++ value.references
  | .expression expr => expr.references
  | .ifElse condition body alternative =>
    condition.references ++ allReferences body ++ alternative.references
  | .whileLoop condition body => condition.references ++ allReferences body
  | .forRange counter start stop _ body =>
    counter.references ++ start.references ++ stop.references ++ allReferences body
  | .tryExcept body handlers none => allReferences body ++ handlerReferences handlers
  | .tryExcept body handlers (some cleanup) =>
    allReferences body ++ handlerReferences handlers ++ allReferences cleanup
  | .print none _ => []
  | .print (some value) _ => value.references
  | .printFormatted format values => format.references ++ values.flatMap Expr.references
  | .returns none => []
  | .returns (some value) => value.references
  | .breaks | .continues => []
  | .function _ _ _ body => allReferences body
  | .classDef _ body => allReferences body

def allReferences : List Stmt → List Expr
  | [] => []
  | first :: rest => first.references ++ allReferences rest

def Alternative.references : Alternative → List Expr
  | .nothing => []
  | .elseIf condition body alternative =>
    condition.references ++ allReferences body ++ alternative.references
  | .otherwise body => allReferences body

def handlerReferences : List (Handler Stmt) → List Expr
  | [] => []
  | ⟨_, _, body⟩ :: rest => allReferences body ++ handlerReferences rest

end

def Chunk.references : Chunk → List Expr
  | .definition stmt => stmt.references
  | .script body => allReferences body

def Module.references (m : Module) : List Expr := m.chunks.flatMap Chunk.references

theorem allReferences_append (body rest : List Stmt) :
    allReferences (body ++ rest) = allReferences body ++ allReferences rest := by
  induction body with
  | nil => rfl
  | cons first body ih =>
      rw [List.cons_append, allReferences, allReferences, ih, List.append_assoc]

end Target

/-- The arguments of a print call that it shows. -/
def PrintKind.shown : PrintKind → List Expr → List Expr
  | .printf, args => args
  | .println, args => args.take 1
  | .print, args => args.take 1

namespace Lowering

/-- The declarations in scope behind an action. -/
def behind {α : Type} (action : Lowering α) (table : SymbolTable) : SymbolTable :=
  (action.outcome table).2

mutual

def meanings (place : Place) (shared : Bool) (table : SymbolTable) : Stmt → List Meaning
  | .declare decl =>
    place.meaning (behind (stmt place shared (.declare decl)) table) decl.name ::
      place.meanings table (namesIn decl.init.toList)
  | .expression e => place.meanings table e.names
  | .block body => bodyMeanings place (if shared then table else table.enter) body
  | .ifElse e thenBranch elseBranch =>
    place.meanings table e.names ++ meanings place true table.enter thenBranch ++
      elseMeanings place (behind (inScope (stmt place true thenBranch)) table) elseBranch
  | .whileLoop e body => place.meanings table e.names ++ meanings place true table.enter body
  | .doWhile body e =>
    meanings place true table.enter body ++
      place.meanings (behind (stmt place true body) table.enter) e.names
  | .forLoop none e update body =>
    place.meanings table.enter (namesIn e.toList) ++
      (meanings place true table.enter.enter body ++
        place.meanings (behind (stmt place true body) table.enter.enter) (namesIn update))
  | .forLoop (some init) e update body =>
    match RangeLoop.detect? init e update body with
    | some loop =>
      let counted := behind (rangeBounds place loop) table.enter
      place.meaning counted loop.counter :: place.meanings table.enter loop.start.names ++
        place.meanings table.enter loop.stop.names ++ meanings place true counted.enter body
    | none =>
      let begun := behind (stmt place false init) table.enter
      meanings place false table.enter init ++
        (place.meanings begun (namesIn e.toList) ++
          (meanings place true begun.enter body ++
            place.meanings (behind (stmt place true body) begun.enter) (namesIn update)))
  | .switch scrutinee cases default =>
    let labels := do groups place (← value place scrutinee) none cases
    labelMeanings place (place.meanings table scrutinee.names) [] table cases ++
      defaultMeanings place (behind labels table) default
  | .tryCatch body catches cleanup =>
    let first := inScope (stmts place body)
    bodyMeanings place table.enter body ++
      handlerMeanings place (behind first table) catches ++
      cleanupMeanings place (behind (do let _ ← first; handlers place catches) table) cleanup
  | .print kind args _ => place.meanings table (namesIn (kind.shown args))
  | .returns value _ => place.meanings table (namesIn value.toList)
  | .breaks | .continues | .empty => []

def bodyMeanings (place : Place) (table : SymbolTable) : List Stmt → List Meaning
  | [] => []
  | first :: rest =>
    meanings place false table first ++
      bodyMeanings place (behind (stmt place false first) table) rest

def elseMeanings (place : Place) (table : SymbolTable) : Option Stmt → List Meaning
  | none => []
  | some (.ifElse e thenBranch elseBranch) =>
    place.meanings table e.names ++ meanings place true table.enter thenBranch ++
      elseMeanings place (behind (inScope (stmt place true thenBranch)) table) elseBranch
  | some branch => meanings place true table.enter branch

def caseMeanings (place : Place) (table : SymbolTable) : List Stmt → List Meaning
  | [] => []
  | .breaks :: _ => []
  | first :: rest =>
    meanings place false table first ++
      caseMeanings place (behind (stmt place false first) table) rest

def labelMeanings (place : Place) (subject pending : List Meaning) (table : SymbolTable) :
    List (SwitchCase Stmt) → List Meaning
  | [] => []
  | ⟨label, body⟩ :: rest =>
    let tests := pending ++ (subject ++ place.meanings table label.names)
    if body.isEmpty then labelMeanings place subject tests table rest
    else
      tests ++ caseMeanings place table.enter body ++
        labelMeanings place subject [] (behind (inScope (caseBody place body)) table) rest

def defaultMeanings (place : Place) (table : SymbolTable) : Option (List Stmt) → List Meaning
  | none => []
  | some body => caseMeanings place table.enter body

def handlerMeanings (place : Place) (table : SymbolTable) :
    List (CatchClause Stmt) → List Meaning
  | [] => []
  | ⟨exception, name, body, position⟩ :: rest =>
    let caught := declare name (.ofTypeName exception) position
    bodyMeanings place (behind caught table.enter) body ++
      handlerMeanings place (behind (inScope do caught; stmts place body) table) rest

def cleanupMeanings (place : Place) (table : SymbolTable) : Option (List Stmt) → List Meaning
  | none => []
  | some body => bodyMeanings place table.enter body

end

def methodMeanings (place : Place) (table : SymbolTable) (decl : Method) : List Meaning :=
  bodyMeanings { place with method := some (kindOf decl) }
    (behind (declareParams decl.params) table.enter) decl.body

def fieldMeanings (place : Place) (table : SymbolTable) : List Member → List Meaning
  | [] => []
  | .field decl :: rest =>
    let declared := behind (fields place [.field decl]) table
    place.meaning declared decl.name :: place.meanings table (namesIn decl.init.toList) ++
      fieldMeanings place declared rest
  | .method _ :: rest => fieldMeanings place table rest
  | .nested _ :: rest => fieldMeanings place table rest

mutual

def classMeanings (table : SymbolTable) : ClassDecl → List Meaning
  | ⟨_, name, members, _⟩ =>
    let place : Place := ⟨some ⟨name, table.enter.depth - 1⟩, none⟩
    fieldMeanings place table.enter members ++
      memberMeanings place (behind (fields place members) table.enter) members

def memberMeanings (place : Place) (table : SymbolTable) : List Member → List Meaning
  | [] => []
  | .field _ :: rest => memberMeanings place table rest
  | .method decl :: rest =>
    methodMeanings place table decl ++ memberMeanings place (behind (method place decl) table) rest
  | .nested decl :: rest =>
    classMeanings table decl ++ memberMeanings place (behind (classDecl decl) table) rest

end

def itemMeanings (table : SymbolTable) : Item → List Meaning
  | .declaration decl => classMeanings table decl
  | .statement s => meanings .outside false table s

def itemsMeanings (table : SymbolTable) : List Item → List Meaning
  | [] => []
  | first :: rest => itemMeanings table first ++ itemsMeanings (behind (item first) table) rest

end Lowering

/-- What the names in a program mean where its lowering comes upon them. -/
def Program.loweredMeanings (program : Program) : List Meaning :=
  Lowering.itemsMeanings .empty program.items

end MiniJava
