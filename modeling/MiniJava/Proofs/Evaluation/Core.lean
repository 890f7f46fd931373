import MiniJava.Proofs.Diagnostics.Checks
import MiniJava.Proofs.Lowering.Grouping
import MiniJava.Proofs.Syntax.Leaves

/-!
# Core programs

A core program is a sequence of loose statements over variables of the types `int` and `String`,
each declared once and with a value: sums, differences and products of integers, joined texts,
comparisons of integers, `if`, `while`, `for` loops that declare a counter, and print calls of one
value in a line. The types of its variables do not depend on the scope, because no name has two
declarations.
-/

namespace MiniJava

open Text

def Check.declaration? : Check → Option (String × ValueType)
  | .declares type name _ _ _ => some (name, .ofTypeName type)
  | _ => none

def declarationsIn (checks : List Check) : List (String × ValueType) :=
  checks.filterMap Check.declaration?

theorem declarationsIn_cons (first : Check) (rest : List Check) :
    declarationsIn (first :: rest) = first.declaration?.toList ++ declarationsIn rest := by
  rw [declarationsIn, List.filterMap_cons]
  cases first.declaration? <;> rfl

theorem declarationsIn_append (checks more : List Check) :
    declarationsIn (checks ++ more) = declarationsIn checks ++ declarationsIn more :=
  List.filterMap_append

namespace Program

def declarations (program : Program) : List (String × ValueType) := declarationsIn program.checks

/-- The type that a name is declared with. -/
def types (program : Program) (name : String) : Option ValueType := program.declarations.lookup name

end Program

def isDecimalInteger (digits : List Char) : Bool :=
  !digits.isEmpty && digits.all isAsciiDigit && (digits.head? ≠ some '0' || digits = ['0'])

def Literal.coreType? : Literal → Option ValueType
  | .number text => if isDecimalInteger text.toList then some .int else none
  | .string text => if text.toList.contains '\\' then none else some .string
  | _ => none

def UnaryOp.coreType? : UnaryOp → ValueType → Option ValueType
  | .neg, .int => some .int
  | .plus, .int => some .int
  | .not, .boolean => some .boolean
  | _, _ => none

def BinaryOp.coreType? (op : BinaryOp) : ValueType → ValueType → Option ValueType
  | .int, .int =>
    if op.isComparison then some .boolean
    else if op = .add || op = .sub || op = .mul then some .int
    else none
  | .boolean, .boolean => if op.isLogical then some .boolean else none
  | .string, .string => if op = .add then some .string else none
  | .string, .int => if op = .add then some .string else none
  | .int, .string => if op = .add then some .string else none
  | _, _ => none

namespace Expr

variable (types : String → Option ValueType)

def coreType? : Expr → Option ValueType
  | .literal value _ => value.coreType?
  | .name word _ => types word
  | .unary op operand => (operand.coreType?).bind op.coreType?
  | .binary op lhs rhs => do op.coreType? (← lhs.coreType?) (← rhs.coreType?)
  | .assign _ _ _ _ | .step _ _ _ _ => none

def isCore (e : Expr) : Bool := (e.coreType? types).isSome

def isCoreEffect : Expr → Bool
  | .assign _ none value _ => value.isCore types
  | .assign target (some op) value _ =>
    (op = .add || op = .sub || op = .mul) && types target = some .int &&
      value.coreType? types = some .int
  | .step target _ _ _ => types target = some .int
  | _ => false

def leavesCounter (counter : String) (e : Expr) : Bool :=
  (RangeLoop.bound? counter e).all fun found => !found.2.names.contains counter

end Expr

namespace Stmt

variable (types : String → Option ValueType)

mutual

def isCore : Stmt → Bool
  | .declare decl => decl.init.any (Expr.isCore types)
  | .expression e => e.isCoreEffect types
  | .block body => allCore body
  | .ifElse e thenBranch none => e.isCore types && thenBranch.isCore
  | .ifElse e thenBranch (some elseBranch) =>
    e.isCore types && thenBranch.isCore && elseBranch.isCore
  | .whileLoop e body => e.isCore types && body.isCore
  | .forLoop (some (.declare decl)) (some e) update body =>
    decl.init.any (Expr.isCore types) && types decl.name = some .int && e.isCore types &&
      e.leavesCounter decl.name && update.all (Expr.isCoreEffect types) && body.isCore
  | .print .println [e] _ =>
    e.coreType? types = some .int || e.coreType? types = some .string
  | .empty => true
  | _ => false

def allCore : List Stmt → Bool
  | [] => true
  | first :: rest => first.isCore && allCore rest

end

mutual

/-- Whether no declaration is itself a branch of an `if` or the body of a loop. Only the statements
of core programs are looked at. -/
def isBraced : Stmt → Bool
  | .block body => allBraced body
  | .ifElse _ thenBranch none => thenBranch.declared.isEmpty && thenBranch.isBraced
  | .ifElse _ thenBranch (some elseBranch) =>
    thenBranch.declared.isEmpty && thenBranch.isBraced &&
      (elseBranch.declared.isEmpty && elseBranch.isBraced)
  | .whileLoop _ body => body.declared.isEmpty && body.isBraced
  | .forLoop _ _ _ body => body.declared.isEmpty && body.isBraced
  | _ => true

def allBraced : List Stmt → Bool
  | [] => true
  | first :: rest => first.isBraced && allBraced rest

end

end Stmt

namespace Program

def statements (program : Program) : List Stmt :=
  program.items.filterMap fun
    | .declaration _ => none
    | .statement s => some s

/-- A program in the core of the language. -/
structure IsCore (program : Program) : Prop where
  loose : program.classes = []
  types : ∀ declaration ∈ program.declarations,
    declaration.2 = .int ∨ declaration.2 = .string
  distinct : (program.declarations.map Prod.fst).Nodup
  names : ∀ declaration ∈ program.declarations, declaration.1 ∉ Python.reserved
  statements : Stmt.allCore program.types program.statements = true

end Program

theorem BinaryOp.typing_of_coreType? {op : BinaryOp} {lhs rhs type : ValueType}
    (h : op.coreType? lhs rhs = some type) : (op.typing (some lhs) (some rhs)).type? = some type := by
  unfold coreType? at h
  split at h <;> cases op <;> simp [isComparison, isLogical] at h <;> subst h <;> rfl

theorem UnaryOp.typing_of_coreType? {op : UnaryOp} {operand type : ValueType}
    (h : op.coreType? operand = some type) : (op.typing (some operand)).type? = some type := by
  unfold coreType? at h
  split at h <;> cases h <;> rfl

theorem isDecimal_of_isDecimalInteger {digits : List Char} (h : isDecimalInteger digits = true) :
    Python.isDecimal digits = true := by
  simp only [isDecimalInteger, Bool.and_eq_true, List.all_eq_true] at h
  obtain ⟨⟨hne, hall⟩, hzero⟩ := h
  have htake : digits.takeWhile isAsciiDigit = digits := List.takeWhile_eq_self_iff.mpr hall
  have hdrop : digits.dropWhile isAsciiDigit = [] := List.dropWhile_eq_nil_iff.mpr hall
  simp only [Python.isDecimal, htake, hdrop, hne, Bool.true_and]
  simp only [Bool.or_eq_true, decide_eq_true_eq] at hzero ⊢
  refine hzero.imp_right fun heq => ?_
  subst heq
  rfl

theorem isIntegral_of_isDecimalInteger {text : String} (h : isDecimalInteger text.toList = true) :
    (Literal.number text).isIntegral = true := by
  simp only [isDecimalInteger, Bool.and_eq_true, List.all_eq_true] at h
  refine List.all_eq_true.mpr fun c hc => ?_
  have hdigit := h.1.2 c hc
  have hmarks := List.all_eq_true.mp (show ['.', 'e', 'E'].all (!isAsciiDigit ·) by decide)
  have hne : ∀ mark ∈ ['.', 'e', 'E'], c ≠ mark := by
    rintro mark hmark rfl
    exact absurd hdigit (by simpa using hmarks c hmark)
  simp [hne]

namespace SymbolTable

/-- Where the names of a core expression are in scope, it has its type. -/
theorem typeOf_of_coreType? {types : String → Option ValueType} {table : SymbolTable} {e : Expr}
    {type : ValueType} (h : e.coreType? types = some type)
    (hnames : ∀ name ∈ e.names, (table.lookup? name).map Symbol.type = types name) :
    table.typeOf e = some type := by
  induction e generalizing type with
  | literal value position =>
      cases value with
      | number text =>
          obtain ⟨hdecimal, htype⟩ := Option.ite_none_right_eq_some.mp h
          cases htype
          rw [typeOf, ValueType.ofLiteral, if_pos (isIntegral_of_isDecimalInteger hdecimal)]
      | string text =>
          obtain ⟨-, htype⟩ := Option.ite_none_left_eq_some.mp h
          exact htype
      | char text => cases h
      | bool value => cases h
      | null => cases h
  | name word position => exact (hnames word List.mem_cons_self).trans h
  | unary op operand ih =>
      obtain ⟨inner, hinner, hop⟩ := Option.bind_eq_some_iff.mp h
      rw [typeOf, ih hinner hnames]
      exact UnaryOp.typing_of_coreType? hop
  | binary op lhs rhs ihl ihr =>
      obtain ⟨left, hleft, hrest⟩ := Option.bind_eq_some_iff.mp h
      obtain ⟨right, hright, hop⟩ := Option.bind_eq_some_iff.mp hrest
      obtain ⟨hl, hr⟩ := List.forall_mem_append.mp hnames
      rw [typeOf, ihl hleft hl, ihr hright hr]
      exact BinaryOp.typing_of_coreType? hop
  | assign target op value position => cases h
  | step target op form position => cases h

end SymbolTable

end MiniJava
