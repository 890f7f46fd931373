import MiniJava.Diagnostics.Statement
import MiniJava.Syntax.Program

/-!
# Checking programs

The fields of a class come into scope before its methods and nested classes are checked, wherever
they are written. A method that has to give a value needs a `return` somewhere in its body.
-/

namespace MiniJava

namespace Inspection

def method (inspection : Inspection) (decl : Method) : Inspection :=
  let expected := (decl.returnType.map ValueType.ofTypeName).getD .void
  let bound := decl.params.foldl
    (fun inspection param => inspection.bound param.type param.name param.position)
    inspection.enter
  let checked := (bound.stmts (some expected) decl.body).leave
  checked.reportIf (expected ≠ .void && !anyReturn decl.body) decl.position
    (.missingReturn decl.name expected)

/-- Fields have default values, so they count as assigned. -/
def fields (inspection : Inspection) : List Member → Inspection
  | [] => inspection
  | .field decl :: rest => (inspection.declaration decl true).fields rest
  | .method _ :: rest => inspection.fields rest
  | .nested _ :: rest => inspection.fields rest

mutual

def classDecl (inspection : Inspection) : ClassDecl → Inspection
  | ⟨_, _, members, _⟩ => ((inspection.enter.fields members).members members).leave

def members (inspection : Inspection) : List Member → Inspection
  | [] => inspection
  | .field _ :: rest => inspection.members rest
  | .method decl :: rest => (inspection.method decl).members rest
  | .nested decl :: rest => (inspection.classDecl decl).members rest

end

def item (inspection : Inspection) : Item → Inspection
  | .declaration decl => inspection.classDecl decl
  | .statement s => inspection.stmt none s

end Inspection

/-- Everything the checker finds wrong with a program, in the order in which it finds it. -/
def Program.diagnostics (program : Program) : List Diagnostic :=
  (program.items.foldl Inspection.item .start).diagnostics

end MiniJava
