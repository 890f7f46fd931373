import MiniJava.Syntax.Stmt

/-!
# Programs

A program is a sequence of classes and loose statements. A class holds fields, methods and further
classes in the order in which they are written.
-/

namespace MiniJava

structure Param where
  type : TypeName
  name : String
  position : Position
deriving DecidableEq, Repr, Inhabited

/-- A method; a constructor is a method without a return type. -/
structure Method where
  modifiers : List Modifier
  returnType : Option TypeName
  name : String
  params : List Param
  body : List Stmt
  position : Position
deriving Repr, Inhabited

namespace Method

def isStatic (method : Method) : Bool := method.modifiers.contains .static

/-- A static `main` that returns nothing, whatever its parameters. -/
def isEntryPoint (method : Method) : Bool :=
  method.name = "main" && method.isStatic && method.returnType.any TypeName.isVoid

end Method

structure ClassBody (μ : Type) where
  modifiers : List Modifier
  name : String
  members : List μ
  position : Position
deriving Repr, Inhabited

inductive Member where
  | field (decl : VarDecl)
  | method (decl : Method)
  | nested (decl : ClassBody Member)
deriving Repr, Inhabited

abbrev ClassDecl := ClassBody Member

def Member.isEntryPoint : Member → Bool
  | .method decl => decl.isEntryPoint
  | _ => false

inductive Item where
  | declaration (decl : ClassDecl)
  | statement (stmt : Stmt)
deriving Repr, Inhabited

structure Program where
  items : List Item
deriving Repr, Inhabited

/-- The classes at the top level, in order. -/
def Program.classes (program : Program) : List ClassDecl :=
  program.items.filterMap fun
    | .declaration decl => some decl
    | .statement _ => none

end MiniJava
