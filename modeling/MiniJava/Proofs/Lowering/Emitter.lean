import MiniJava.Lowering.Program

/-!
# Writing code while it is lowered

Code can be written line by line while its source is walked, without a tree in between. An emitter
that does so keeps the text it has written and knows where it stands: how deep, with what in scope,
in which classes and in which kind of method. What stands deeper, or in a scope, a class or a method
of its own, is written between a change of this and the change back, which is made whether or not
the part in between can be lowered.
-/

namespace MiniJava

def Item.isClass : Item → Bool
  | .declaration _ => true
  | .statement _ => false

structure Emitter where
  text : String
  level : Nat
  symbols : SymbolTable
  /-- The classes around, the innermost first. -/
  classes : List EnclosingClass
  method : Option MethodKind
deriving DecidableEq, Repr, Inhabited

namespace Emitter

def start : Emitter := ⟨"", 0, .empty, [], none⟩

def place (emitter : Emitter) : Place := ⟨emitter.classes.head?, emitter.method⟩

def size (emitter : Emitter) : Nat := emitter.text.utf8ByteSize

def put (emitter : Emitter) (lines : List Target.Line) : Emitter :=
  { emitter with text := emitter.text ++ String.join (lines.map Target.Line.toText) }

end Emitter

/-- A result or a failure, with the emitter behind it. A failure takes back nothing that has been
written. -/
abbrev Emitting (α : Type) := ExceptT Failure (StateM Emitter) α

namespace Emitting

variable {α : Type}

def outcome (action : Emitting α) (emitter : Emitter) : Except Failure α × Emitter :=
  (ExceptT.run action).run emitter

def emit (lines : Nat → List Target.Line) : Emitting Unit :=
  modify fun emitter => emitter.put (lines emitter.level)

def line (text : String) : Emitting Unit := emit fun level => [⟨level, text⟩]

def blank : Emitting Unit := emit fun _ => [.blank]

def gap : Emitting Unit := emit fun _ => Target.Module.gap

def write (out : List Target.Stmt) : Emitting Unit :=
  emit fun level => Target.Stmt.allLines level out

def lower (action : Place → Lowering α) : Emitting α :=
  ExceptT.mk fun emitter =>
    let lowered := (action emitter.place).outcome emitter.symbols
    (lowered.1, { emitter with symbols := lowered.2 })

def value (e : Expr) : Emitting Target.Expr := lower (Lowering.value · e)

/-- Runs an action behind `enter` and makes the change back behind it, also if the action fails. -/
def between (enter leave : Emitter → Emitter) (action : Emitting α) : Emitting α :=
  ExceptT.mk fun emitter =>
    let inner := action.outcome (enter emitter)
    (inner.1, leave inner.2)

def inScope (action : Emitting α) : Emitting α :=
  between (fun emitter => { emitter with symbols := emitter.symbols.enter })
    (fun emitter => { emitter with symbols := emitter.symbols.leave }) action

def deeper (action : Emitting α) : Emitting α :=
  between (fun emitter => { emitter with level := emitter.level + 1 })
    (fun emitter => { emitter with level := emitter.level - 1 }) action

def inMethod (kind : Option MethodKind) (action : Emitting α) : Emitting α := do
  let outer := (← get).method
  between (fun emitter => { emitter with method := kind })
    (fun emitter => { emitter with method := outer }) action

def inClass (name : String) (action : Emitting α) : Emitting α :=
  between
    (fun emitter => { emitter with
      classes := ⟨name, emitter.symbols.depth - 1⟩ :: emitter.classes })
    (fun emitter => { emitter with classes := emitter.classes.tail }) action

def orPass (action : Emitting Unit) : Emitting Unit := do
  let start := (← get).size
  action
  if (← get).size = start then line "pass"

/-- A header and, in a scope of its own, the suite below it. -/
def clause (header : String) (body : Emitting Unit) : Emitting Unit := do
  line header
  deeper (inScope (orPass body))

def effects : List Expr → Emitting Unit
  | [] => return ()
  | first :: rest => do
    write (← lower (Lowering.effect · first))
    effects rest

mutual

def stmt (shared : Bool) : Stmt → Emitting Unit
  | .declare decl => do
    let source ← lower (Lowering.initial · decl)
    lower fun _ => Lowering.declare decl.name (.ofTypeName decl.type) decl.position
    let target ← lower (Lowering.reference · decl.name)
    line (target.toText ++ " = " ++ source.toText)
  | .expression e => do write (← lower (Lowering.effect · e))
  | .block body => if shared then stmts body else inScope (stmts body)
  | .ifElse e thenBranch elseBranch => do
    let condition ← value e
    clause ("if " ++ condition.toText ++ ":") (stmt true thenBranch)
    alternative elseBranch
  | .whileLoop e body => do
    let condition ← value e
    clause ("while " ++ condition.toText ++ ":") (stmt true body)
  | .doWhile body e => clause "while True:" do
    stmt true body
    let condition ← value e
    clause ("if " ++ (Target.Expr.negation condition).toText ++ ":") (line "break")
  | .forLoop none e update body => inScope do
    let condition ← lower (Lowering.loopCondition · e)
    clause ("while " ++ condition.toText ++ ":") do
      stmt true body
      effects update
  | .forLoop (some init) e update body => inScope do
    match RangeLoop.detect? init e update body with
    | some loop => do
      let (start, stop) ← lower (Lowering.rangeBounds · loop)
      let counter ← lower (Lowering.reference · loop.counter)
      clause ("for " ++ counter.toText ++ " in range(" ++
        Target.rangeArguments start stop loop.step ++ "):") (stmt true body)
    | none => do
      lower fun _ => Lowering.refuseOverflow (RangeLoop.headerOverflows init e update)
      stmt false init
      let condition ← lower (Lowering.loopCondition · e)
      clause ("while " ++ condition.toText ++ ":") do
        stmt true body
        effects update
  | .switch scrutinee list default => do
    let subject ← value scrutinee
    let begun ← cases subject false none list
    otherwise begun default
  | .tryCatch body list cleanup => do
    clause "try:" (stmts body)
    handlers list
    cleanupClause cleanup
  | .print kind args _ => do write (← lower (Lowering.print · kind args))
  | .returns none _ => line "return"
  | .returns (some e) _ => do
    let result ← value e
    line ("return " ++ result.toText)
  | .breaks => line "break"
  | .continues => line "continue"
  | .empty => return ()

def stmts : List Stmt → Emitting Unit
  | [] => return ()
  | first :: rest => do
    stmt false first
    stmts rest

def alternative : Option Stmt → Emitting Unit
  | none => return ()
  | some (.ifElse e thenBranch elseBranch) => do
    let condition ← value e
    clause ("elif " ++ condition.toText ++ ":") (stmt true thenBranch)
    alternative elseBranch
  | some branch => clause "else:" (stmt true branch)

def caseBody : List Stmt → Emitting Unit
  | [] => return ()
  | .breaks :: _ => return ()
  | first :: rest => do
    stmt false first
    caseBody rest

/-- The comparisons of a switch; the chain has `begun` behind the first with statements. -/
def cases (subject : Target.Expr) (begun : Bool) (pending : Option Target.Expr) :
    List (SwitchCase Stmt) → Emitting Bool
  | [] => return begun
  | ⟨label, body⟩ :: rest => do
    let condition := Lowering.matching subject pending (← value label)
    if body.isEmpty then cases subject begun (some condition) rest
    else do
      clause ((if begun then "elif " else "if ") ++ condition.toText ++ ":") (caseBody body)
      cases subject true none rest

def otherwise (begun : Bool) : Option (List Stmt) → Emitting Unit
  | none => return ()
  | some body => if begun then clause "else:" (caseBody body) else inScope (caseBody body)

def handlers : List (CatchClause Stmt) → Emitting Unit
  | [] => return ()
  | ⟨exception, name, body, position⟩ :: rest => do
    clause ("except " ++ Lowering.exceptionName exception ++ " as " ++ name ++ ":") do
      lower fun _ => Lowering.declare name (.ofTypeName exception) position
      stmts body
    handlers rest

def cleanupClause : Option (List Stmt) → Emitting Unit
  | none => return ()
  | some body => clause "finally:" (stmts body)

end

def method (decl : Method) : Emitting Unit := do
  if decl.isStatic then line "@staticmethod"
  inMethod (some (Lowering.kindOf decl)) <|
    clause ("def " ++ Lowering.methodName decl ++ "(" ++
      Target.joined ", " (Lowering.paramNames decl) ++ "):") do
      lower fun _ => Lowering.declareParams decl.params
      stmts decl.body

def fields : List Member → Emitting Unit
  | [] => return ()
  | .field decl :: rest => do
    let source ← lower (Lowering.initial · decl)
    line (decl.name ++ " = " ++ source.toText)
    lower fun _ => Lowering.declare decl.name (.ofTypeName decl.type) decl.position
    fields rest
  | .method _ :: rest => fields rest
  | .nested _ :: rest => fields rest

def separate (start : Nat) : Emitting Unit := do
  if start < (← get).size then blank

mutual

def classDecl : ClassDecl → Emitting Unit
  | ⟨_, name, members, _⟩ => do
    line ("class " ++ name ++ ":")
    inMethod none <| deeper <| inScope <| inClass name <| orPass do
      let start := (← get).size
      fields members
      definitions start members

def definitions (start : Nat) : List Member → Emitting Unit
  | [] => return ()
  | .field _ :: rest => definitions start rest
  | .method decl :: rest => do
    separate start
    method decl
    definitions start rest
  | .nested decl :: rest => do
    separate start
    classDecl decl
    definitions start rest

end

def item : Item → Emitting Unit
  | .declaration decl => classDecl decl
  | .statement s => stmt false s

/-- Items behind a class or a statement, or at the start of a program. -/
def items (afterClass : Option Bool) : List Item → Emitting Unit
  | [] => return ()
  | first :: rest => do
    if afterClass.any (first.isClass || ·) then gap
    item first
    items (some first.isClass) rest

def program (source : Program) : Emitting Unit := do
  items none source.items
  match source.entryClass? with
  | none => return ()
  | some decl => do
    gap
    line "if __name__ == \"__main__\":"
    deeper (line (decl.name ++ ".main([])"))

end Emitting

/-- The text that an emitter writes for a program. -/
def Program.emitted (source : Program) : Except Failure String :=
  let written := (Emitting.program source).outcome .start
  written.1.map fun _ => written.2.text

end MiniJava
