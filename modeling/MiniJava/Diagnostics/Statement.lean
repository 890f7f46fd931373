import MiniJava.Diagnostics.Expression

/-!
# Checking statements

Statements are checked in the order of the source text. Blocks, `for` loops, switches, the parts
of a `try` and its handlers have scopes of their own; a single statement under an `if` or a loop
does not. Whether a variable has been assigned is judged by source order too, so an assignment in
one branch counts in all that follows.
-/

namespace MiniJava

mutual

def Stmt.containsReturn : Stmt → Bool
  | .returns _ _ => true
  | .block body => anyReturn body
  | .ifElse _ thenBranch none => thenBranch.containsReturn
  | .ifElse _ thenBranch (some elseBranch) =>
    thenBranch.containsReturn || elseBranch.containsReturn
  | .whileLoop _ body => body.containsReturn
  | .doWhile body _ => body.containsReturn
  | .forLoop _ _ _ body => body.containsReturn
  | .switch _ cases none => anyCaseReturn cases
  | .switch _ cases (some default) => anyCaseReturn cases || anyReturn default
  | .tryCatch body catches none => anyReturn body || anyCatchReturn catches
  | .tryCatch body catches (some cleanup) =>
    anyReturn body || anyCatchReturn catches || anyReturn cleanup
  | .declare _ | .expression _ | .print _ _ _ | .breaks | .continues | .empty => false

def anyReturn : List Stmt → Bool
  | [] => false
  | stmt :: rest => stmt.containsReturn || anyReturn rest

def anyCaseReturn : List (SwitchCase Stmt) → Bool
  | [] => false
  | ⟨_, body⟩ :: rest => anyReturn body || anyCaseReturn rest

def anyCatchReturn : List (CatchClause Stmt) → Bool
  | [] => false
  | ⟨_, _, body, _⟩ :: rest => anyReturn body || anyCatchReturn rest

end

namespace Inspection

/-- A variable comes into scope behind its initial value. -/
def declaration (inspection : Inspection) (decl : VarDecl) (initialized : Bool) : Inspection :=
  let type := ValueType.ofTypeName decl.type
  let symbol : Symbol := ⟨type, decl.position, initialized || decl.init.isSome, decl.isFinal⟩
  match decl.init with
  | none => inspection.declare decl.name symbol
  | some value =>
    let source := inspection.expr value
    (source.after.assignable type source.type value decl.position).declare decl.name symbol

/-- A parameter or a caught exception has a value from the start. -/
def bound (inspection : Inspection) (type : TypeName) (name : String) (position : Position) :
    Inspection :=
  inspection.declare name ⟨.ofTypeName type, position, true, false⟩

/-- A returned value has to be of the method's type; outside a method there is no such type. -/
def returned (inspection : Inspection) (expected : Option ValueType) (position : Position) :
    Option Expr → Inspection
  | none =>
    match expected with
    | none => inspection
    | some expected =>
      inspection.reportIf (expected ≠ .void) position (.missingValue expected)
  | some value =>
    let actual := inspection.expr value
    match expected with
    | none => actual.after
    | some .void => actual.after.report position .valueFromVoid
    | some expected =>
      match actual.type with
      | none => actual.after
      | some type =>
        actual.after.reportIf (!expected.accepts type) position (.returnMismatch type expected)

def forCondition (inspection : Inspection) : Option Expr → Inspection
  | none => inspection
  | some e => inspection.condition .forLoop e

mutual

/-- Checks a statement of a method with the return type `expected`. -/
def stmt (expected : Option ValueType) (inspection : Inspection) : Stmt → Inspection
  | .declare decl => inspection.declaration decl false
  | .expression e => (inspection.expr e).after
  | .block body => (inspection.enter.stmts expected body).leave
  | .ifElse e thenBranch none => (inspection.condition .ifElse e).stmt expected thenBranch
  | .ifElse e thenBranch (some elseBranch) =>
    ((inspection.condition .ifElse e).stmt expected thenBranch).stmt expected elseBranch
  | .whileLoop e body => (inspection.condition .whileLoop e).stmt expected body
  | .doWhile body e => (inspection.stmt expected body).condition .doWhile e
  | .forLoop none e update body =>
    (((inspection.enter.forCondition e).exprs update).stmt expected body).leave
  | .forLoop (some init) e update body =>
    ((((inspection.enter.stmt expected init).forCondition e).exprs update).stmt expected
      body).leave
  | .switch scrutinee cases none =>
    (((inspection.expr scrutinee).after.enter).cases expected cases).leave
  | .switch scrutinee cases (some default) =>
    ((((inspection.expr scrutinee).after.enter).cases expected cases).stmts expected
      default).leave
  | .tryCatch body catches none =>
    ((inspection.enter.stmts expected body).leave).catches expected catches
  | .tryCatch body catches (some cleanup) =>
    (((inspection.enter.stmts expected body).leave.catches expected catches).enter.stmts expected
      cleanup).leave
  | .print _ args _ => inspection.exprs args
  | .returns value position => inspection.returned expected position value
  | .breaks | .continues | .empty => inspection

def stmts (expected : Option ValueType) (inspection : Inspection) : List Stmt → Inspection
  | [] => inspection
  | first :: rest => (inspection.stmt expected first).stmts expected rest

def cases (expected : Option ValueType) (inspection : Inspection) :
    List (SwitchCase Stmt) → Inspection
  | [] => inspection
  | ⟨value, body⟩ :: rest =>
    ((inspection.expr value).after.stmts expected body).cases expected rest

def catches (expected : Option ValueType) (inspection : Inspection) :
    List (CatchClause Stmt) → Inspection
  | [] => inspection
  | ⟨exception, name, body, position⟩ :: rest =>
    ((inspection.enter.bound exception name position).stmts expected body).leave.catches expected
      rest

end

end Inspection

end MiniJava
