import MiniJava.Proofs.Diagnostics.Loops
import MiniJava.Proofs.Lowering.Ranges
import MiniJava.Proofs.Lowering.Sorted

/-!
# Types of counting loops

A range of Python is given by integers. The test for a counting loop asks whether its counter is
integral where the loop declares it, and asks for no other type. So a counter that is declared
before may be a `double`, and so may a bound; and a `char`, which is integral, is written as a
string. In a clean program nothing else goes wrong: the start widens to the counter, and numbers of
the other integral types are emitted as expressions for integers.
-/

namespace MiniJava

namespace ValueType

/-- Integral, and written as a number. -/
def isWhole (type : ValueType) : Bool := type.isIntegral && type ≠ .char

def isFloating (type : ValueType) : Bool := type = .float || type = .double

variable {declared stored : ValueType}

theorem isWhole_iff (h : stored.isNumeric = true) :
    stored.isWhole = true ↔ stored.isFloating = false ∧ stored ≠ .char := by
  cases stored <;> simp_all [isWhole, isFloating, isIntegral, isNumeric, rank]

theorem isIntegral_of_isWhole (h : stored.isWhole = true) : stored.isIntegral = true :=
  (Bool.and_eq_true_iff.mp h).1

theorem not_isFloating (h : stored.isIntegral = true) : stored.isFloating = false := by
  cases stored <;> simp_all [isFloating, isIntegral, rank]

/-- Only a floating variable takes a floating number. -/
theorem isFloating_of_accepts (h : declared.accepts stored = true)
    (hstored : stored.isFloating = true) : declared.isFloating = true := by
  obtain rfl | rfl : stored = .float ∨ stored = .double := by simpa [isFloating] using hstored
  all_goals cases declared <;> simp_all [accepts, isFloating, isNumeric, rank]

end ValueType

namespace RangeLoop

structure Types where
  counter : ValueType
  start : ValueType
  bound : ValueType
deriving DecidableEq, Repr

def Types.all (types : Types) : List ValueType := [types.counter, types.start, types.bound]

theorem Types.forall_all {types : Types} {P : ValueType → Prop} :
    (∀ type ∈ types.all, P type) ↔ P types.counter ∧ P types.start ∧ P types.bound := by
  simp [all]

/-- Numbers are compared. -/
theorem isNumeric_of_inclusive? {op : BinaryOp} {step : Int} {inclusive : Bool}
    {lhs rhs : ValueType} (h : inclusive? op step = some inclusive)
    (hvalid : op.typing (some lhs) (some rhs) ≠ .invalid) :
    lhs.isNumeric = true ∧ rhs.isNumeric = true := by
  cases op with
  | lt | le | gt | ge =>
      simpa [BinaryOp.typing, BinaryOp.joinsStrings, BinaryOp.typingOf, Typing.guarded] using hvalid
  | _ => cases h

end RangeLoop

namespace Loop

variable {loop : Loop} {range : RangeLoop}

/-- The types that the checker gives counter, start and bound where it judges them. -/
def types? (loop : Loop) (range : RangeLoop) : Option RangeLoop.Types := do
  let counter ← loop.begun.typeOf (.name range.counter range.position)
  let start ← loop.table.enter.typeOf range.start
  let bound ← loop.begun.typeOf range.stop
  return ⟨counter, start, bound⟩

/-- What keeps a range from going over integers. -/
inductive Strays (loop : Loop) (types : RangeLoop.Types) : Prop
  /-- The loop assigns its counter, which is declared before as a floating number. -/
  | counter {e : Expr} (hinit : loop.init = .expression e)
      (htype : types.counter.isFloating = true)
  | bound (htype : types.bound.isFloating = true)
  | char (hmem : .char ∈ types.all)

def Starts (counter start : ValueType) : Prop :=
  counter.isNumeric = true →
    start.isNumeric = true ∧ (start.isFloating = true → counter.isFloating = true)

theorem starts_of_stored {table : SymbolTable} {value : Expr} {counter start : ValueType}
    (htype : table.typeOf value = some start)
    (h : counter.accepts start = true ∨ Inspection.narrows counter value = true) :
    Starts counter start := by
  intro hnumeric
  obtain haccepts | hnarrows := h
  · have hadmits : counter.admits start = true := by
      refine ValueType.admits_of_accepts ?_ ?_ haccepts
      all_goals
        rintro rfl
        cases hnumeric
    rw [ValueType.admits_of_isNumeric hnumeric] at hadmits
    exact ⟨hadmits, ValueType.isFloating_of_accepts haccepts⟩
  · obtain rfl : start = .int :=
      Option.some_inj.mp (htype.symm.trans (SymbolTable.typeOf_of_narrows hnarrows))
    exact ⟨rfl, nofun⟩

open SymbolTable (clean_append clean_cons)

/-- The checks of the first part and those of the condition. -/
theorem Clean.parts (h : loop.Clean) {condition : Expr}
    (hcondition : loop.condition = some condition) :
    loop.table.enter.Clean (loop.init.checks loop.expected) ∧
      loop.begun.Clean condition.checks := by
  rw [Clean, checks, stmt, hcondition] at h
  obtain ⟨hparts, -⟩ := clean_append.mp (clean_cons.mp h).2
  obtain ⟨hinit, hheader⟩ := clean_append.mp (clean_append.mp hparts).1
  rw [headerChecks, Option.toList_some, List.flatMap_singleton] at hheader
  exact ⟨hinit, (clean_append.mp (clean_append.mp hheader).1).1⟩

/-- The counter and the bound are numbers. -/
theorem Clean.compared (h : loop.Clean) (hrange : loop.range? = some range) :
    ∃ counter bound, loop.begun.typeOf (.name range.counter range.position) = some counter ∧
      loop.begun.typeOf range.stop = some bound ∧
      counter.isNumeric = true ∧ bound.isNumeric = true := by
  obtain ⟨-, op, position, hcondition, hinclusive, -⟩ := RangeLoop.exists_of_detect hrange
  obtain ⟨hsides, happlies⟩ := clean_append.mp (h.parts hcondition).2
  obtain ⟨hname, hstop⟩ := clean_append.mp hsides
  obtain ⟨counter, hcounter⟩ := SymbolTable.exists_typeOf (.name range.counter position) hname
  obtain ⟨bound, hbound⟩ := SymbolTable.exists_typeOf range.stop hstop
  rw [SymbolTable.typeOf_run] at hbound
  have hvalid := Check.passes_applies.mp (clean_cons.mp happlies).1
  rw [SymbolTable.run_append, SymbolTable.typeOf_run, SymbolTable.typeOf_run,
    SymbolTable.typeOf_run, SymbolTable.typeOf_run, hcounter, hbound] at hvalid
  exact ⟨counter, bound, hcounter, hbound, RangeLoop.isNumeric_of_inclusive? hinclusive hvalid⟩

/-- A declared variable has the type of its declaration, and it takes its initial value. -/
theorem started_of_declare {table : SymbolTable} {decl : VarDecl} {value : Expr}
    {position : Position} {counter : ValueType} (hvalue : decl.init = some value)
    (h : table.Clean (decl.checks false))
    (hcounter : (table.run (decl.checks false)).typeOf (.name decl.name position) =
      some counter) :
    ∃ start, table.typeOf value = some start ∧ Starts counter start ∧
      counter = .ofTypeName decl.type := by
  rw [VarDecl.checks, hvalue] at h hcounter
  obtain ⟨hstored, hdeclares⟩ := clean_append.mp h
  obtain ⟨hstart, hinitializes⟩ := clean_append.mp hstored
  obtain ⟨start, htype⟩ := SymbolTable.exists_typeOf value hstart
  have hstores := Check.passes_initializes.mp (clean_cons.mp hinitializes).1 start
  rw [SymbolTable.typeOf_run] at hstores
  have hnew := Check.passes_declares.mp (clean_cons.mp hdeclares).1
  rw [SymbolTable.run_append, SymbolTable.run_cons, Check.after_eq, SymbolTable.run_nil,
    SymbolTable.typeOf, SymbolTable.lookup?, SymbolTable.resolve?_bring_self, hnew] at hcounter
  cases hcounter
  exact ⟨start, htype, starts_of_stored htype (hstores htype), rfl⟩

/-- A counter that is assigned takes its start. -/
theorem started_of_assign {table : SymbolTable} {target : String} {value : Expr}
    {position : Position} {counter : ValueType}
    (h : table.Clean (Expr.assign target none value position).checks)
    (hcounter : table.typeOf (.name target position) = some counter) :
    ∃ start, table.typeOf value = some start ∧ Starts counter start := by
  obtain ⟨-, hrest⟩ := clean_cons.mp h
  rw [Check.after_eq] at hrest
  obtain ⟨hvalue, hstores⟩ := clean_append.mp hrest
  obtain ⟨start, htype⟩ := SymbolTable.exists_typeOf value hvalue
  rw [← SymbolTable.typeOf_run table value] at hcounter
  obtain ⟨symbol, hlookup, rfl⟩ := Option.map_eq_some_iff.mp hcounter
  have hstored := (Check.passes_assign hlookup).mp (clean_cons.mp hstores).1 start
  rw [SymbolTable.typeOf_run] at hstored
  exact ⟨start, htype, starts_of_stored htype (hstored htype)⟩

/-- The counter takes the start, and it is integral unless the loop assigns it. -/
theorem Clean.started (h : loop.Clean) (hrange : loop.range? = some range) {counter : ValueType}
    (hcounter : loop.begun.typeOf (.name range.counter range.position) = some counter) :
    ∃ start, loop.table.enter.typeOf range.start = some start ∧ Starts counter start ∧
      (counter.isFloating = true → ∃ e, loop.init = .expression e) := by
  obtain ⟨hinit, op, position, hcondition, -⟩ := RangeLoop.exists_of_detect hrange
  have hchecks := (h.parts hcondition).1
  rw [begun] at hcounter
  obtain ⟨decl, hform, hintegral, hvalue, heq⟩ | ⟨hform, -⟩ := RangeLoop.counter?_cases hinit
  · obtain ⟨hname, -⟩ := RangeLoop.Counter.mk.inj heq
    rw [hform, Stmt.checks] at hchecks hcounter
    rw [hname] at hcounter
    obtain ⟨start, htype, hstarts, rfl⟩ := started_of_declare hvalue hchecks hcounter
    refine ⟨start, htype, hstarts, fun hfloating => ?_⟩
    rw [ValueType.not_isFloating hintegral] at hfloating
    cases hfloating
  · rw [hform, Stmt.checks] at hchecks hcounter
    rw [SymbolTable.typeOf_run] at hcounter
    obtain ⟨start, htype, hstarts⟩ := started_of_assign hchecks hcounter
    exact ⟨start, htype, hstarts, fun _ => ⟨_, hform⟩⟩

/-- The types of a clean loop are numeric; a floating start needs a floating counter, and a floating
counter is one that the loop assigns. -/
theorem Clean.exists_types (h : loop.Clean) (hrange : loop.range? = some range) :
    ∃ types, loop.types? range = some types ∧ (∀ type ∈ types.all, type.isNumeric = true) ∧
      (types.start.isFloating = true → types.counter.isFloating = true) ∧
      (types.counter.isFloating = true → ∃ e, loop.init = .expression e) := by
  obtain ⟨counter, bound, hcounter, hbound, hcounterNumeric, hboundNumeric⟩ := h.compared hrange
  obtain ⟨start, hstart, hstarts, hassigned⟩ := h.started hrange hcounter
  obtain ⟨hstartNumeric, hfloating⟩ := hstarts hcounterNumeric
  refine ⟨⟨counter, start, bound⟩, ?_, ?_, hfloating, hassigned⟩
  · rw [types?, hcounter, hstart, hbound]
    rfl
  · simp [RangeLoop.Types.all, hcounterNumeric, hstartNumeric, hboundNumeric]

/-- Nothing else keeps the types from being those of integers. -/
theorem whole_iff {types : RangeLoop.Types} (hnumeric : ∀ type ∈ types.all, type.isNumeric = true)
    (hstart : types.start.isFloating = true → types.counter.isFloating = true)
    (hcounter : types.counter.isFloating = true → ∃ e, loop.init = .expression e) :
    (∀ type ∈ types.all, type.isWhole = true) ↔ ¬loop.Strays types := by
  have hiff (type : ValueType) (hmem : type ∈ types.all) :=
    ValueType.isWhole_iff (hnumeric type hmem)
  constructor
  · intro hwhole hstrays
    obtain ⟨hcounterWhole, -, hboundWhole⟩ :=
      RangeLoop.Types.forall_all.mp fun type hmem => ((hiff type hmem).mp (hwhole type hmem)).1
    cases hstrays with
    | counter hinit htype => simp [hcounterWhole] at htype
    | bound htype => simp [hboundWhole] at htype
    | char hmem => cases hwhole _ hmem
  -- the start needs no case of its own: where it is floating, so is the counter
  · intro hstrays type hmem
    have hcounterKept : types.counter.isFloating = false := by
      rw [← Bool.not_eq_true]
      intro hfloating
      obtain ⟨e, hinit⟩ := hcounter hfloating
      exact hstrays (.counter hinit hfloating)
    have hstartKept : types.start.isFloating = false := by
      rw [← Bool.not_eq_true]
      intro hfloating
      simp [hstart hfloating] at hcounterKept
    have hboundKept : types.bound.isFloating = false := by
      rw [← Bool.not_eq_true]
      exact fun hfloating => hstrays (.bound hfloating)
    have hkept : ∀ type ∈ types.all, type.isFloating = false :=
      RangeLoop.Types.forall_all.mpr ⟨hcounterKept, hstartKept, hboundKept⟩
    refine (hiff type hmem).mpr ⟨hkept type hmem, ?_⟩
    rintro rfl
    exact hstrays (.char hmem)

end Loop

namespace Target

def Operator.keepsWhole : Operator → Bool
  | add | sub | mul | floorDiv | mod | bitOr | bitXor | bitAnd | shl | shr => true
  | or | and | eq | ne | lt | le | gt | ge | div => false

/-- Whether an expression is one for an integer, where these names hold integers. -/
def Expr.isWhole (names : String → Bool) : Expr → Bool
  | number text => (Literal.number text).isIntegral
  | name text => names text
  | member _ text => names text
  | signed _ operand => operand.isWhole names
  | binary op lhs rhs => op.keepsWhole && (lhs.isWhole names && rhs.isWhole names)
  | string _ | char _ | bool _ | noneValue | str _ | negation _ => false

theorem Operator.tree_of_keepsWhole {op : Operator} (h : op.keepsWhole = true)
    (lhs rhs : Python.Tree) : op.tree lhs rhs = .binary op.symbol lhs rhs := by
  cases op with
  | or | and | eq | ne | lt | le | gt | ge | div => cases h
  | _ => rfl

end Target

def Python.Env.Whole (env : Env) (names : String → Bool) : Prop :=
  ∀ name, names name = true →
    (∀ v, env.names name = some v → ∃ n, v = .int n) ∧
      ∀ holder v, env.members holder name = some v → ∃ n, v = .int n

theorem Python.exists_int_of_combine? {symbol : String} {a b : Int} {v : Value}
    (h : combine? symbol (.int a) (.int b) = some v) : ∃ n, v = .int n := by
  unfold combine? at h
  split at h
  · cases h
    exact ⟨b, rfl⟩
  · obtain ⟨_, -, hright⟩ := Option.bind_eq_some_iff.mp h
    obtain ⟨_, -, hresult⟩ := Option.bind_eq_some_iff.mp hright
    obtain ⟨n, -, hn⟩ := Option.bind_eq_some_iff.mp hresult
    exact ⟨n, (Option.some.inj hn).symm⟩

/-- What such an expression stands for is an integer. -/
theorem Target.Expr.exists_int {env : Python.Env} {names : String → Bool}
    (henv : env.Whole names) {e : Target.Expr} (h : e.isWhole names = true) {v : Value}
    (hv : e.tree.value? env = some v) : ∃ n, v = .int n := by
  induction e generalizing v with
  | number text =>
      obtain ⟨n, -, rfl⟩ := Option.map_eq_some_iff.mp hv
      exact ⟨n, rfl⟩
  | name text => exact (henv text h).1 v hv
  | member holder text => exact (henv text h).2 holder v hv
  | signed sign operand ih =>
      obtain ⟨inner, hinner, hsign⟩ := Option.bind_eq_some_iff.mp hv
      obtain ⟨n, rfl⟩ := ih h hinner
      cases sign with
      | invert => cases hsign
      | _ =>
          cases hsign
          exact ⟨_, rfl⟩
  | binary op lhs rhs ihl ihr =>
      obtain ⟨hop, hsides⟩ := Bool.and_eq_true_iff.mp h
      obtain ⟨hl, hr⟩ := Bool.and_eq_true_iff.mp hsides
      rw [tree, Operator.tree_of_keepsWhole hop, Python.Tree.value?] at hv
      obtain ⟨left, hleft, hrest⟩ := Option.bind_eq_some_iff.mp hv
      obtain ⟨a, rfl⟩ := ihl hl hleft
      split at hrest
      · cases hrest
        exact ⟨a, rfl⟩
      · obtain ⟨right, hright, hcombine⟩ := Option.bind_eq_some_iff.mp hrest
        obtain ⟨b, rfl⟩ := ihr hr hright
        exact Python.exists_int_of_combine? hcombine
  | string _ | char _ | bool _ | noneValue | str _ | negation _ => cases h

namespace BinaryOp

variable {op : BinaryOp} {lhs rhs type : ValueType}

theorem isIntegral_of_promote (hl : lhs.isNumeric = true) (hr : rhs.isNumeric = true)
    (h : (ValueType.promote lhs rhs).isIntegral = true) :
    lhs.isIntegral = true ∧ rhs.isIntegral = true := by
  cases lhs <;> cases rhs <;>
    simp_all [ValueType.promote, ValueType.wider, ValueType.isIntegral, ValueType.isNumeric,
      ValueType.rank]

/-- An operation that gives an integer works on integers. -/
theorem isIntegral_of_typing (h : op.typing (some lhs) (some rhs) = .typed type)
    (htype : type.isIntegral = true) : lhs.isIntegral = true ∧ rhs.isIntegral = true := by
  obtain ⟨hjoins, hcompares, hlogical, _, _, hl, hr, hlhs, hrhs⟩ :=
    exists_of_isNumeric h (ValueType.isNumeric_of_isIntegral htype)
  cases hl
  cases hr
  rw [typing, if_neg (by simp [hjoins])] at h
  cases op with
  | or | and => cases hlogical
  | eq | ne | lt | le | gt | ge => cases hcompares
  | add | sub | mul | div | rem =>
      obtain ⟨-, rfl⟩ := Typing.of_guarded h
      exact isIntegral_of_promote hlhs hrhs htype
  | shl | shr | ushr => exact Bool.and_eq_true_iff.mp (Typing.of_guarded h).1
  | bitAnd | bitOr | bitXor =>
      simp only [typingOf] at h
      split at h
      · cases h
        cases htype
      · exact Bool.and_eq_true_iff.mp (Typing.of_guarded h).1

theorem keepsWhole_of_operator? {operator : Target.Operator}
    (h : Lowering.operator? (some lhs) (some rhs) op = some operator)
    (hcompares : op.isComparison = false) (hlogical : op.isLogical = false)
    (hlhs : lhs.isIntegral = true) (hrhs : rhs.isIntegral = true) :
    operator.keepsWhole = true := by
  cases op with
  | or | and => cases hlogical
  | eq | ne | lt | le | gt | ge => cases hcompares
  | ushr => cases h
  | div =>
      rw [Lowering.operator?, if_pos (by simp [Lowering.dividesIntegers, hlhs, hrhs])] at h
      cases h
      rfl
  | _ =>
      cases h
      rfl

end BinaryOp

theorem UnaryOp.isIntegral_of_typing {op : UnaryOp} {operand type : ValueType}
    (h : op.typing (some operand) = .typed type) (htype : type.isIntegral = true) :
    operand.isIntegral = true := by
  cases op with
  | not =>
      obtain ⟨-, rfl⟩ := Typing.of_guarded h
      cases htype
  | neg | plus =>
      obtain ⟨hoperand, rfl⟩ := Typing.of_guarded h
      exact (BinaryOp.isIntegral_of_promote hoperand rfl htype).1
  | bitNot => exact (Typing.of_guarded h).1

def SymbolTable.wholes (table : SymbolTable) (name : String) : Bool :=
  (table.lookup? name).any fun symbol => symbol.type.isWhole

namespace Lowering

variable {place : Place} {table : SymbolTable}

theorem reference_isWhole (name : String) (names : String → Bool) :
    (place.reference table name).isWhole names = names name := by
  unfold Place.reference
  split <;> rfl

/-- An integer that is not computed from a `char` is emitted as an integer. -/
theorem whole_of_integral {e : Expr} {out : Target.Expr} {type : ValueType}
    (h : expr place table e = .ok out) (hcharless : table.charless e = true)
    (htype : table.typeOf e = some type) (hintegral : type.isIntegral = true) :
    out.isWhole table.wholes = true := by
  induction e generalizing out type with
  | literal value position =>
      cases h
      cases htype
      cases value with
      | number text =>
          simp only [ValueType.ofLiteral] at hintegral
          split at hintegral
          · next hwhole => exact hwhole
          · cases hintegral
      | char text => cases hcharless
      | _ => cases hintegral
  | name word position =>
      cases h
      have hchar : type ≠ .char := by
        rintro rfl
        simp [SymbolTable.charless, htype] at hcharless
      obtain ⟨symbol, hsymbol, rfl⟩ := Option.map_eq_some_iff.mp htype
      rw [reference_isWhole, SymbolTable.wholes, hsymbol]
      simp [ValueType.isWhole, hintegral, hchar]
  | binary op lhs rhs ihl ihr =>
      obtain ⟨operator, left, right, hoperator, hleft, hright, rfl⟩ := exists_of_binary h
      have htyped := Typing.exists_of_type? htype
      obtain ⟨hjoins, hcompares, hlogical, lhsType, rhsType, hlhs, hrhs, -⟩ :=
        BinaryOp.exists_of_isNumeric htyped (ValueType.isNumeric_of_isIntegral hintegral)
      simp only [SymbolTable.charless, hjoins, hcompares, hlogical, Bool.false_or,
        Bool.and_eq_true] at hcharless
      rw [hlhs, hrhs] at htyped hoperator
      obtain ⟨hl, hr⟩ := BinaryOp.isIntegral_of_typing htyped hintegral
      have hkeeps := BinaryOp.keepsWhole_of_operator? hoperator hcompares hlogical hl hr
      rw [binary, if_neg (by simp [hjoins]), Target.Expr.isWhole, hkeeps,
        ihl hleft hcharless.1 hlhs hl, ihr hright hcharless.2 hrhs hr]
      rfl
  | unary op operand ih =>
      obtain ⟨inner, hinner, rfl⟩ := exists_of_unary h
      have htyped := Typing.exists_of_type? htype
      obtain ⟨hnot, operandType, hoperand, -⟩ :=
        UnaryOp.exists_of_isNumeric htyped (ValueType.isNumeric_of_isIntegral hintegral)
      simp only [SymbolTable.charless, hnot, decide_false, Bool.false_or] at hcharless
      rw [hoperand] at htyped
      have hwhole := ih hinner hcharless hoperand (UnaryOp.isIntegral_of_typing htyped hintegral)
      cases op with
      | not => exact absurd rfl hnot
      | _ => exact hwhole
  | assign target op value position ih => cases h
  | step target op form position => cases h

theorem boundBehind_isWhole {range : RangeLoop} {bound : Target.Expr} {names : String → Bool}
    (h : bound.isWhole names = true) : (boundBehind range bound).isWhole names = true := by
  simp only [boundBehind]
  split
  · rw [Target.Expr.isWhole, Literal.isIntegral, List.all_eq_true]
    intro c hc
    obtain rfl | hdigit := Text.mem_toString hc
    · rfl
    · have hother (other : Char) (h : other.isDigit = false) : (c != other) = true := by
        rw [bne_iff_ne]
        rintro rfl
        simp [h] at hdigit
      simp [hother '.' rfl, hother 'e' rfl, hother 'E' rfl]
  · rw [Target.Expr.isWhole, h]
    split <;> rfl

end Lowering

namespace Loop

variable {loop : Loop} {range : RangeLoop}

/-- Neither start nor bound is computed from a `char`. -/
def Charless (loop : Loop) (range : RangeLoop) : Prop :=
  loop.table.enter.charless range.start = true ∧ loop.begun.charless range.stop = true

/-- Wherever the names of start and bound mean what they mean to the checker, the loop becomes one
over a range from an integer to an integer. -/
def EmitsWhole (loop : Loop) (range : RangeLoop) : Prop :=
  ∀ place shared table after out,
    place.Same range.start.names loop.table.enter table.enter →
    place.Same range.stop.names loop.begun table.enter →
    (Lowering.stmt place shared loop.stmt).outcome table = (.ok out, after) →
    ∃ counter start stop body, out = [.forRange counter start stop range.step body] ∧
      start.isWhole loop.table.enter.wholes = true ∧ stop.isWhole loop.begun.wholes = true

theorem typeOf_of_types? {types : RangeLoop.Types} (h : loop.types? range = some types) :
    loop.table.enter.typeOf range.start = some types.start ∧
      loop.begun.typeOf range.stop = some types.bound := by
  obtain ⟨counter, -, hrest⟩ := Option.bind_eq_some_iff.mp h
  obtain ⟨start, hstart, hlast⟩ := Option.bind_eq_some_iff.mp hrest
  obtain ⟨bound, hbound, heq⟩ := Option.bind_eq_some_iff.mp hlast
  cases heq
  exact ⟨hstart, hbound⟩

theorem emitsWhole {types : RangeLoop.Types} (hrange : loop.range? = some range)
    (htypes : loop.types? range = some types) (hwhole : ∀ type ∈ types.all, type.isWhole = true)
    (hcharless : loop.Charless range) : loop.EmitsWhole range := by
  intro place shared table after out hstartSame hboundSame hout
  obtain ⟨hstartType, hboundType⟩ := typeOf_of_types? htypes
  obtain ⟨-, hstartWhole, hboundWhole⟩ := RangeLoop.Types.forall_all.mp hwhole
  obtain ⟨_, _, start, bound, body, _, -, -, -, -, hstart, hbound, -, rfl⟩ :=
    Lowering.exists_of_counting hrange hout
  rw [← hstartSame.expr] at hstart
  rw [← hboundSame.expr] at hbound
  have hstartEmitted := Lowering.whole_of_integral hstart hcharless.1 hstartType
    (ValueType.isIntegral_of_isWhole hstartWhole)
  have hboundEmitted := Lowering.whole_of_integral hbound hcharless.2 hboundType
    (ValueType.isIntegral_of_isWhole hboundWhole)
  refine ⟨_, start, _, body, rfl, hstartEmitted, ?_⟩
  split
  · exact Lowering.boundBehind_isWhole hboundEmitted
  · exact hboundEmitted

end Loop

namespace Program

/-- In a clean program counter, start and bound of every counting loop are numbers, and they are
integers written as numbers unless the loop strays; then its range is emitted with integers, if it
is not computed from a `char` either. -/
theorem ranges_whole_iff {program : Program} (h : program.diagnostics = []) {loop : Loop}
    (hloop : loop ∈ program.loops) {range : RangeLoop} (hrange : loop.range? = some range) :
    ∃ types, loop.types? range = some types ∧ (∀ type ∈ types.all, type.isNumeric = true) ∧
      ((∀ type ∈ types.all, type.isWhole = true) ↔ ¬loop.Strays types) ∧
      (¬loop.Strays types → loop.Charless range → loop.EmitsWhole range) := by
  obtain ⟨types, htypes, hnumeric, hstart, hcounter⟩ :=
    (loops_clean h hloop).exists_types hrange
  have hiff := Loop.whole_iff hnumeric hstart hcounter
  exact ⟨types, htypes, hnumeric, hiff,
    fun hstrays => Loop.emitsWhole hrange htypes (hiff.mpr hstrays)⟩

/-- A declared counter, with a bound that is computed. -/
theorem ranges_whole_half :
    ∃ program,
      ofSource "int n = 9; for (int i = 1; i <= n / 2; i += 2) \x7b \x7d" = .ok program ∧
      ∃ loop ∈ program.loops, ∃ range, loop.range? = some range ∧
        loop.types? range = some ⟨.int, .int, .int⟩ ∧ ¬loop.Strays ⟨.int, .int, .int⟩ ∧
        loop.EmitsWhole range := by
  obtain ⟨program, hsource, hclean, loop, hloop, hfacts⟩ :=
    exists_program "int n = 9; for (int i = 1; i <= n / 2; i += 2) \x7b \x7d"
      (fun program => program.diagnostics = [] ∧ ∃ loop ∈ program.loops,
        (loop.range?.any fun range => loop.types? range = some ⟨.int, .int, .int⟩ &&
          loop.table.enter.charless range.start && loop.begun.charless range.stop) = true)
      (by decide +kernel)
  obtain ⟨range, hrange, hfound⟩ := (Option.any_eq_true _ _).mp hfacts
  simp only [Bool.and_eq_true, decide_eq_true_eq] at hfound
  obtain ⟨⟨htypes, hstart⟩, hbound⟩ := hfound
  obtain ⟨types, hsame, -, hiff, hemits⟩ := ranges_whole_iff hclean hloop hrange
  obtain rfl := Option.some.inj (htypes.symm.trans hsame)
  have hkept := hiff.mp (by decide)
  exact ⟨program, hsource, loop, hloop, range, hrange, htypes, hkept, hemits hkept ⟨hstart, hbound⟩⟩

/-- The counter is a variable for floating numbers, and so is what the range starts with. -/
theorem range_over_double :
    ∃ program, ofSource "double d = 0.5; for (d = 0.5; d < 3; d++) \x7b \x7d" = .ok program ∧
      program.diagnostics = [] ∧
      program.toPython = .ok "d = 0.5\nfor d in range(0.5, 3):\n    pass\n" ∧
      ∃ loop ∈ program.loops, loop.range?.bind loop.types? = some ⟨.double, .double, .int⟩ :=
  exists_program _ _ (by decide +kernel)

end Program

end MiniJava
