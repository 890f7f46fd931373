import MiniJava.Syntax.Expr

/-!
# Statements

A block is the list of its statements. The parts of a `switch` and of a `try` are records over the
type of statements, so that they can be named before statements are defined.
-/

namespace MiniJava

inductive Modifier where
  | publicAccess | privateAccess | protectedAccess | static | final | abstract
deriving DecidableEq, Repr, Inhabited

namespace Modifier

def word : Modifier → String
  | .publicAccess => "public"
  | .privateAccess => "private"
  | .protectedAccess => "protected"
  | .static => "static"
  | .final => "final"
  | .abstract => "abstract"

def all : List Modifier :=
  [.publicAccess, .privateAccess, .protectedAccess, .static, .final, .abstract]

def ofWord? (text : String) : Option Modifier := all.find? fun modifier => modifier.word = text

@[simp] theorem ofWord?_word (modifier : Modifier) : ofWord? modifier.word = some modifier := by
  cases modifier <;> decide

theorem word_of_ofWord? {text : String} {modifier : Modifier} (h : ofWord? text = some modifier) :
    modifier.word = text := by simpa using List.find?_some h

end Modifier

/-- A written type: a name and a number of array dimensions. -/
structure TypeName where
  name : String
  dimensions : Nat
deriving DecidableEq, Repr, Inhabited

namespace TypeName

def isVoid (type : TypeName) : Bool := type.name = "void" && type.dimensions = 0

/-- The type as written, with a pair of brackets for each dimension. -/
def written (type : TypeName) : String :=
  type.name ++ String.join (List.replicate type.dimensions "[]")

end TypeName

structure VarDecl where
  modifiers : List Modifier
  type : TypeName
  name : String
  init : Option Expr
  position : Position
deriving DecidableEq, Repr, Inhabited

def VarDecl.isFinal (decl : VarDecl) : Bool := decl.modifiers.contains .final

inductive PrintKind where
  | print | println | printf
deriving DecidableEq, Repr, Inhabited

structure SwitchCase (σ : Type) where
  value : Expr
  body : List σ
deriving Repr

structure CatchClause (σ : Type) where
  exception : TypeName
  name : String
  body : List σ
  position : Position
deriving Repr

inductive Stmt where
  | declare (decl : VarDecl)
  | expression (expr : Expr)
  | block (body : List Stmt)
  | ifElse (condition : Expr) (thenBranch : Stmt) (elseBranch : Option Stmt)
  | whileLoop (condition : Expr) (body : Stmt)
  | doWhile (body : Stmt) (condition : Expr)
  | forLoop (init : Option Stmt) (condition : Option Expr) (update : List Expr) (body : Stmt)
  | switch (scrutinee : Expr) (cases : List (SwitchCase Stmt)) (default : Option (List Stmt))
  | tryCatch (body : List Stmt) (catches : List (CatchClause Stmt)) (cleanup : Option (List Stmt))
  | print (kind : PrintKind) (args : List Expr) (position : Position)
  | returns (value : Option Expr) (position : Position)
  | breaks
  | continues
  | empty
deriving Repr, Inhabited

end MiniJava
