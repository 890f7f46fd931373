import MiniJava.Lowering.RangeLoop
import MiniJava.Syntax.Program

/-!
# Names in statements

The names that occur in statements, and those that a statement declares for the statements behind
it. A program is tidy if no name can be taken for a declaration that is only in scope where scopes
are drawn too wide or too narrow: the condition of a `do` loop does not see the declarations of its
body, the updates of a `for` loop do not either, and the labels and statements of a `switch` do not
see those of an earlier label.
-/

namespace MiniJava

/-- The names in an expression, the target of an assignment in front of its value. -/
def Expr.names : Expr → List String
  | .literal _ _ => []
  | .name word _ => [word]
  | .binary _ lhs rhs => lhs.names ++ rhs.names
  | .unary _ operand => operand.names
  | .assign target _ value _ => target :: value.names
  | .step target _ _ _ => [target]

def namesIn (exprs : List Expr) : List String := exprs.flatMap Expr.names

namespace Stmt

/-- The names that a statement declares in the scope that it stands in. -/
def declared : Stmt → List String
  | .declare decl => [decl.name]
  | .ifElse _ thenBranch none => thenBranch.declared
  | .ifElse _ thenBranch (some elseBranch) => thenBranch.declared ++ elseBranch.declared
  | .whileLoop _ body => body.declared
  | .doWhile body _ => body.declared
  | _ => []

def declaredWithin : Stmt → List String
  | .block body => body.flatMap declared
  | s => s.declared

end Stmt

mutual

def Stmt.mentions : Stmt → List String
  | .declare decl => decl.name :: namesIn decl.init.toList
  | .expression e => e.names
  | .block body => allMentions body
  | .ifElse e thenBranch none => e.names ++ thenBranch.mentions
  | .ifElse e thenBranch (some elseBranch) =>
    e.names ++ thenBranch.mentions ++ elseBranch.mentions
  | .whileLoop e body => e.names ++ body.mentions
  | .doWhile body e => body.mentions ++ e.names
  | .forLoop none e update body => namesIn e.toList ++ namesIn update ++ body.mentions
  | .forLoop (some init) e update body =>
    init.mentions ++ namesIn e.toList ++ namesIn update ++ body.mentions
  | .switch scrutinee cases none => scrutinee.names ++ caseMentions cases
  | .switch scrutinee cases (some default) =>
    scrutinee.names ++ caseMentions cases ++ allMentions default
  | .tryCatch body catches none => allMentions body ++ catchMentions catches
  | .tryCatch body catches (some cleanup) =>
    allMentions body ++ catchMentions catches ++ allMentions cleanup
  | .print _ args _ => namesIn args
  | .returns value _ => namesIn value.toList
  | .breaks | .continues | .empty => []

def allMentions : List Stmt → List String
  | [] => []
  | first :: rest => first.mentions ++ allMentions rest

def caseMentions : List (SwitchCase Stmt) → List String
  | [] => []
  | ⟨label, body⟩ :: rest => label.names ++ allMentions body ++ caseMentions rest

def catchMentions : List (CatchClause Stmt) → List String
  | [] => []
  | ⟨_, _, body, _⟩ :: rest => allMentions body ++ catchMentions rest

end

def apart (names others : List String) : Bool := names.all fun name => !others.contains name

theorem not_mem_of_apart {names others : List String} (h : apart names others = true)
    {name : String} (hname : name ∈ others) : name ∉ names := by
  intro hmem
  simpa [hname] using List.all_eq_true.mp h name hmem

/-- Whether a counting loop declares its counter and the bound does not read it. -/
def RangeLoop.tidy (loop : RangeLoop) (init : Stmt) : Bool :=
  init.declared.contains loop.counter && apart [loop.counter] loop.stop.names

mutual

/-- Whether the scopes in a statement can be drawn in any of the ways above. A statement under an
`if` or a loop declares nothing but within braces of its own. -/
def Stmt.tidy : Stmt → Bool
  | .block body => allTidy body
  | .ifElse _ thenBranch none => thenBranch.declared.isEmpty && thenBranch.tidy
  | .ifElse _ thenBranch (some elseBranch) =>
    (thenBranch.declared.isEmpty && thenBranch.tidy) &&
      (elseBranch.declared.isEmpty && elseBranch.tidy)
  | .whileLoop _ body => body.declared.isEmpty && body.tidy
  | .doWhile body e => (body.declared.isEmpty && body.tidy) && apart body.declaredWithin e.names
  | .forLoop none _ update body =>
    (body.declared.isEmpty && body.tidy) && apart body.declaredWithin (namesIn update)
  | .forLoop (some init) e update body =>
    (body.declared.isEmpty && body.tidy) && init.tidy &&
      match RangeLoop.detect? init e update body with
      | some loop => loop.tidy init
      | none => apart body.declaredWithin (namesIn update)
  | .switch _ cases none => casesTidy [] cases
  | .switch _ cases (some default) => casesTidy (allMentions default) cases && labelTidy default
  | .tryCatch body catches none => allTidy body && catchesTidy catches
  | .tryCatch body catches (some cleanup) =>
    allTidy body && catchesTidy catches && allTidy cleanup
  | .declare _ | .expression _ | .print _ _ _ | .returns _ _ | .breaks | .continues | .empty => true

def allTidy : List Stmt → Bool
  | [] => true
  | first :: rest => first.tidy && allTidy rest

def labelTidy : List Stmt → Bool
  | [] => true
  | .breaks :: _ => true
  | first :: rest => first.tidy && labelTidy rest

def casesTidy (later : List String) : List (SwitchCase Stmt) → Bool
  | [] => true
  | ⟨_, body⟩ :: rest =>
    labelTidy body && apart (body.flatMap Stmt.declared) (caseMentions rest ++ later) &&
      casesTidy later rest

def catchesTidy : List (CatchClause Stmt) → Bool
  | [] => true
  | ⟨_, _, body, _⟩ :: rest => allTidy body && catchesTidy rest

end

mutual

def ClassDecl.tidy : ClassDecl → Bool
  | ⟨_, _, members, _⟩ => membersTidy members

def membersTidy : List Member → Bool
  | [] => true
  | .field _ :: rest => membersTidy rest
  | .method decl :: rest => allTidy decl.body && membersTidy rest
  | .nested decl :: rest => ClassDecl.tidy decl && membersTidy rest

end

def Item.tidy : Item → Bool
  | .declaration decl => ClassDecl.tidy decl
  | .statement s => s.tidy

def Program.tidy (program : Program) : Bool := program.items.all Item.tidy

namespace Stmt

/-- A tidy statement is a declaration, or it declares nothing. -/
theorem declared_eq_nil {s : Stmt} (h : s.tidy = true) (hs : ∀ decl, s ≠ .declare decl) :
    s.declared = [] := by
  cases s with
  | declare decl => exact absurd rfl (hs decl)
  | ifElse e thenBranch elseBranch =>
      cases elseBranch <;> simp_all [tidy, declared]
  | whileLoop e body => simp_all [tidy, declared]
  | doWhile body e => simp_all [tidy, declared]
  | _ => rfl

theorem tidy_ifElse {e : Expr} {thenBranch : Stmt} {elseBranch : Option Stmt}
    (h : (ifElse e thenBranch elseBranch).tidy = true) :
    (thenBranch.declared = [] ∧ thenBranch.tidy = true) ∧
      ∀ branch, elseBranch = some branch → branch.declared = [] ∧ branch.tidy = true := by
  cases elseBranch <;> simp_all [tidy]

theorem mentions_ifElse {e : Expr} {thenBranch : Stmt} {elseBranch : Option Stmt}
    {names : List String} (h : (ifElse e thenBranch elseBranch).mentions ⊆ names) :
    e.names ⊆ names ∧ thenBranch.mentions ⊆ names ∧
      ∀ branch, elseBranch = some branch → branch.mentions ⊆ names := by
  cases elseBranch <;> simp_all [mentions]

def defaultMentions (default : Option (List Stmt)) : List String :=
  (default.map allMentions).getD []

theorem tidy_switch {e : Expr} {cases : List (SwitchCase Stmt)} {default : Option (List Stmt)}
    (h : (switch e cases default).tidy = true) :
    casesTidy (defaultMentions default) cases = true ∧
      ∀ body, default = some body → labelTidy body = true := by
  cases default <;> simp_all [tidy, defaultMentions]

theorem mentions_switch {e : Expr} {cases : List (SwitchCase Stmt)}
    {default : Option (List Stmt)} {names : List String}
    (h : (switch e cases default).mentions ⊆ names) :
    e.names ⊆ names ∧ caseMentions cases ++ defaultMentions default ⊆ names := by
  cases default <;> simp_all [mentions, defaultMentions]

theorem tidy_tryCatch {body : List Stmt} {catches : List (CatchClause Stmt)}
    {cleanup : Option (List Stmt)} (h : (tryCatch body catches cleanup).tidy = true) :
    allTidy body = true ∧ catchesTidy catches = true ∧
      ∀ last, cleanup = some last → allTidy last = true := by
  cases cleanup <;> simp_all [tidy]

theorem mentions_tryCatch {body : List Stmt} {catches : List (CatchClause Stmt)}
    {cleanup : Option (List Stmt)} {names : List String}
    (h : (tryCatch body catches cleanup).mentions ⊆ names) :
    allMentions body ⊆ names ∧ catchMentions catches ⊆ names ∧
      ∀ last, cleanup = some last → allMentions last ⊆ names := by
  cases cleanup <;> simp_all [mentions]

end Stmt

namespace RangeLoop

/-- A counter is declared with an integral type and a start, or it is assigned. -/
theorem counter?_cases {init : Stmt} {counter : Counter} (h : counter? init = some counter) :
    (∃ decl, init = .declare decl ∧ (ValueType.ofTypeName decl.type).isIntegral = true ∧
      decl.init = some counter.start ∧
      counter = ⟨decl.name, .ofTypeName decl.type, decl.position, counter.start⟩) ∨
    init = .expression (.assign counter.name none counter.start counter.position) ∧
      counter.type = .int := by
  unfold counter? at h
  split at h
  · next decl =>
      obtain ⟨hintegral, hcounter⟩ := Option.ite_none_right_eq_some.mp h
      obtain ⟨start, hstart, rfl⟩ := Option.map_eq_some_iff.mp hcounter
      exact .inl ⟨decl, rfl, hintegral, hstart, rfl⟩
  · cases h
    exact .inr ⟨rfl, rfl⟩
  · cases h

/-- What a counting loop's header gives. -/
theorem exists_of_detect {init body : Stmt} {e : Option Expr} {update : List Expr}
    {loop : RangeLoop} (h : detect? init e update body = some loop) :
    counter? init = some ⟨loop.counter, loop.type, loop.position, loop.start⟩ ∧
      ∃ op position, e = some (.binary op (.name loop.counter position) loop.stop) ∧
        inclusive? op loop.step = some loop.inclusive ∧
        step? loop.counter update = some loop.step ∧
        undisturbed loop.counter loop.stop body = true := by
  simp only [detect?, Option.bind_eq_bind, Option.bind_eq_some_iff] at h
  obtain ⟨counter, hcounter, condition, rfl, ⟨comparison, bound⟩, hbound, step, hstep, inclusive,
    hinclusive, hloop⟩ := h
  split at hloop
  · next hundisturbed =>
      cases hloop
      refine ⟨hcounter, ?_⟩
      unfold bound? at hbound
      split at hbound
      · next op name position bound =>
          split at hbound
          · next hname =>
              cases hbound
              exact ⟨comparison, position, by rw [hname], hinclusive, hstep, hundisturbed⟩
          · cases hbound
      · cases hbound
  · cases hloop

/-- A tidy counting loop starts with the declaration of its counter. -/
theorem exists_of_tidy {init : Stmt} {loop : RangeLoop} (h : loop.tidy init = true)
    (hcounter : counter? init = some ⟨loop.counter, loop.type, loop.position, loop.start⟩) :
    ∃ decl, init = .declare decl ∧ decl.name = loop.counter ∧ decl.init = some loop.start ∧
      loop.type = .ofTypeName decl.type ∧ loop.position = decl.position := by
  obtain ⟨decl, rfl, -, hstart, heq⟩ | ⟨rfl, -⟩ := counter?_cases hcounter
  · obtain ⟨hname, htype, hposition, -⟩ := Counter.mk.inj heq
    exact ⟨decl, rfl, hname.symm, hstart, htype, hposition⟩
  · simp [RangeLoop.tidy, Stmt.declared] at h

end RangeLoop

end MiniJava
