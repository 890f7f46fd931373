import MiniJava.Lowering.Statement
import MiniJava.Syntax.Program
import MiniJava.Target.Module

/-!
# Lowering programs

A class becomes a Python class with its fields in front. Constructors become `__init__`, and static
methods take no `self`. The first class with an entry point is run when the module is.
-/

namespace MiniJava

namespace Lowering

def kindOf (decl : Method) : MethodKind := if decl.isStatic then .ofClass else .ofInstance

def methodName (decl : Method) : String :=
  if decl.returnType.isNone then "__init__" else decl.name

def paramNames (decl : Method) : List String :=
  let names := decl.params.map Param.name
  if decl.isStatic then names else "self" :: names

def declareParams : List Param → Lowering Unit
  | [] => return ()
  | ⟨type, name, position⟩ :: rest => do
    declare name (.ofTypeName type) position
    declareParams rest

def method (place : Place) (decl : Method) : Lowering Target.Stmt := do
  let body ← inScope do
    declareParams decl.params
    stmts { place with method := some (kindOf decl) } decl.body
  return .function decl.isStatic (methodName decl) (paramNames decl) body

/-- The fields of a class; each comes into scope behind its value. -/
def fields (place : Place) : List Member → Lowering (List Target.Stmt)
  | [] => return []
  | .field decl :: rest => do
    let source ← initial place decl
    declare decl.name (.ofTypeName decl.type) decl.position
    return .assign (.name decl.name) source :: (← fields place rest)
  | .method _ :: rest => fields place rest
  | .nested _ :: rest => fields place rest

mutual

def classDecl : ClassDecl → Lowering Target.Stmt
  | ⟨_, name, members, _⟩ => inScope do
    let place : Place := ⟨some ⟨name, (← get).depth - 1⟩, none⟩
    let fields ← fields place members
    return .classDef name (fields ++ (← definitions place members))

/-- The methods and nested classes of a class. -/
def definitions (place : Place) : List Member → Lowering (List Target.Stmt)
  | [] => return []
  | .field _ :: rest => definitions place rest
  | .method decl :: rest => return (← method place decl) :: (← definitions place rest)
  | .nested decl :: rest => return (← classDecl decl) :: (← definitions place rest)

end

def item : Item → Lowering Target.Chunk
  | .declaration decl => return .definition (← classDecl decl)
  | .statement s => return .script (← stmt .outside false s)

def items : List Item → Lowering (List Target.Chunk)
  | [] => return []
  | first :: rest => return (← item first) :: (← items rest)

end Lowering

namespace Program

/-- The class whose `main` runs a program. -/
def entryClass? (program : Program) : Option ClassDecl :=
  program.classes.find? fun decl => decl.members.any Member.isEntryPoint

/-- The Python module that a program becomes, or the first failure on the way. -/
def toModule (program : Program) : Except Failure Target.Module :=
  ((Lowering.items program.items).outcome .empty).1.map fun chunks =>
    ⟨chunks, program.entryClass?.map ClassBody.name⟩

/-- The Python source text that a program becomes. -/
def toPython (program : Program) : Except Failure String :=
  program.toModule.map Target.Module.toText

end Program

end MiniJava
