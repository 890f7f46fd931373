import MiniJava.Proofs.Evaluation.Core
import MiniJava.Proofs.Lowering.Arithmetic
import MiniJava.Proofs.Python.Run

/-!
# Values of lowered core expressions

A core expression always has a value of its type, and Python gives the text of the expression the
same value: integers and texts are operated on alike, an integer is written alike in both
languages, and a condition is decided by the same operands.
-/

namespace MiniJava

open Python (Vars)

namespace Value

def type : Value → ValueType
  | int _ => .int
  | truth _ => .boolean
  | text _ => .string

theorem exists_int {v : Value} (h : v.type = .int) : ∃ n, v = .int n := by
  cases v with
  | int n => exact ⟨n, rfl⟩
  | truth b => cases h
  | text text => cases h

theorem exists_truth {v : Value} (h : v.type = .boolean) : ∃ b, v = .truth b := by
  cases v with
  | int n => cases h
  | truth b => exact ⟨b, rfl⟩
  | text text => cases h

theorem exists_text {v : Value} (h : v.type = .string) : ∃ text, v = .text text := by
  cases v with
  | int n => cases h
  | truth b => cases h
  | text text => exact ⟨text, rfl⟩

/-- Integers and texts are shown alike. -/
theorem str_eq_shown {v : Value} (h : v.type = .int ∨ v.type = .string) : v.str = v.shown := by
  cases v with
  | int n => rfl
  | truth b => rcases h with h | h <;> cases h
  | text text => rfl

end Value

/-- Both are the same value, and it is of this type. -/
def SameValue (type : ValueType) (value other : Option Value) : Prop :=
  ∃ v : Value, v.type = type ∧ value = some v ∧ other = some v

section Operations

variable {read : String → Option Value} {env : Python.Env} {lhs rhs : Expr} {l r : Python.Tree}
  {a b : Value}

theorem Expr.value?_binary {op : BinaryOp} (hl : lhs.value? read = some a)
    (hr : rhs.value? read = some b) (hsettles : op.settles a = false) :
    (Expr.binary op lhs rhs).value? read = op.result? .truncated a b := by
  rw [value?] at hl hr ⊢
  simp [valueBy, hl, hr, hsettles]

theorem Expr.value?_settled {op : BinaryOp} (hl : lhs.value? read = some a)
    (hsettles : op.settles a = true) : (Expr.binary op lhs rhs).value? read = some a := by
  rw [value?] at hl ⊢
  simp [valueBy, hl, hsettles]

theorem Python.Tree.value?_settled {symbol : String} (hl : l.value? env = some a)
    (hsettles : settles symbol a = true) : (Tree.binary symbol l r).value? env = some a := by
  simp [value?, hl, hsettles]

theorem Python.Tree.value?_binary {symbol : String} (hl : l.value? env = some a)
    (hr : r.value? env = some b) (hsettles : settles symbol a = false) :
    (Tree.binary symbol l r).value? env = combine? symbol a b := by
  simp [value?, hl, hr, hsettles]

theorem Python.Tree.value?_comparison {symbol : String} (hl : l.value? env = some a)
    (hr : r.value? env = some b) :
    (Tree.comparison l [(symbol, r)]).value? env = (compare? symbol a b).map .truth := by
  rw [value?, hl, Option.bind_some, chain?, hr]
  cases h : compare? symbol a b with
  | none => simp [h]
  | some holds => cases holds <;> simp [h, chain?]

end Operations

namespace Lowering

section Operations

variable {read : String → Option Value} {env : Python.Env} {lhs rhs : Expr}
  {left right : Target.Expr} {type leftType rightType : ValueType}

theorem agree_unary {op : UnaryOp} {operand : Expr} {inner : Target.Expr} {innerType : ValueType}
    (hop : op.coreType? innerType = some type)
    (h : SameValue innerType (operand.value? read) (inner.tree.value? env)) :
    SameValue type ((Expr.unary op operand).value? read) ((unary op inner).tree.value? env) := by
  obtain ⟨v, hv, hvalue, htree⟩ := h
  have hunary : (Expr.unary op operand).value? read = op.result? v := by
    rw [Expr.value?] at hvalue ⊢
    rw [Expr.valueBy, hvalue, Option.bind_some]
  rw [hunary, tree_unary]
  unfold UnaryOp.coreType? at hop
  split at hop
  · obtain ⟨n, rfl⟩ := Value.exists_int hv
    cases hop
    exact ⟨.int (-n), rfl, rfl, by simp [Python.Tree.value?, htree]; rfl⟩
  · obtain ⟨n, rfl⟩ := Value.exists_int hv
    cases hop
    exact ⟨.int n, rfl, rfl, by simp [Python.Tree.value?, htree]; rfl⟩
  · obtain ⟨b, rfl⟩ := Value.exists_truth hv
    cases hop
    exact ⟨.truth !b, rfl, rfl, by simp [Python.Tree.value?, htree, Value.holds]⟩
  · cases hop

/-- A side of a concatenation is joined as the text that shows it. -/
theorem value?_asText (hstr : env.names "str" = none) {side : Target.Expr} {v : Value}
    (hside : v.type = .int ∨ v.type = .string) (h : side.tree.value? env = some v) :
    (asText (some v.type) side).tree.value? env = some (.text v.shown) := by
  unfold asText
  split
  · next htype =>
      obtain ⟨text, rfl⟩ := Value.exists_text (Option.some.inj htype)
      exact h
  · have hcall : Python.call? env (.name "str") [v] = some (.text v.str) := by
      simp [Python.call?, hstr]
    rw [Target.Expr.tree, Python.Tree.value?, Python.values?, h, ← Value.str_eq_shown hside, ← hcall]
    rfl

theorem agree_joined (hstr : env.names "str" = none)
    (hjoins : leftType = .string ∨ rightType = .string)
    (hsides : ∀ side ∈ [leftType, rightType], side = .int ∨ side = .string)
    (hl : SameValue leftType (lhs.value? read) (left.tree.value? env))
    (hr : SameValue rightType (rhs.value? read) (right.tree.value? env)) :
    SameValue .string ((Expr.binary .add lhs rhs).value? read)
      ((binary .add .add (some leftType) (some rightType) left right).tree.value? env) := by
  obtain ⟨a, rfl, hleft, hltree⟩ := hl
  obtain ⟨b, rfl, hright, hrtree⟩ := hr
  obtain ⟨ha, hb⟩ : (a.type = .int ∨ a.type = .string) ∧ (b.type = .int ∨ b.type = .string) := by
    simpa using hsides
  have hbinary : binary .add .add (some a.type) (some b.type) left right =
      .binary .add (asText (some a.type) left) (asText (some b.type) right) := by
    simp [binary, BinaryOp.joinsStrings, hjoins]
  have htree := Python.Tree.value?_binary (value?_asText hstr ha hltree)
    (value?_asText hstr hb hrtree) (show Python.settles "+" _ = false from rfl)
  refine ⟨.text (a.shown ++ b.shown), rfl, ?_, hbinary ▸ htree⟩
  rw [Expr.value?_binary hleft hright rfl]
  rcases hjoins with h | h
  · obtain ⟨text, rfl⟩ := Value.exists_text h
    rfl
  · obtain ⟨text, rfl⟩ := Value.exists_text h
    cases a <;> rfl

theorem agree_compared {op : BinaryOp} (hop : op.isComparison = true) {operator : Target.Operator}
    (hoperator : operator? (some .int) (some .int) op = some operator)
    (hl : SameValue .int (lhs.value? read) (left.tree.value? env))
    (hr : SameValue .int (rhs.value? read) (right.tree.value? env)) :
    SameValue .boolean ((Expr.binary op lhs rhs).value? read)
      ((binary op operator (some .int) (some .int) left right).tree.value? env) := by
  obtain ⟨_, ha, hleft, hltree⟩ := hl
  obtain ⟨_, hb, hright, hrtree⟩ := hr
  obtain ⟨a, rfl⟩ := Value.exists_int ha
  obtain ⟨b, rfl⟩ := Value.exists_int hb
  have htree (symbol : String) := @Python.Tree.value?_comparison env left.tree right.tree _ _ symbol
    hltree hrtree
  cases op with
  | eq | ne | lt | le | gt | ge =>
      cases hoperator
      exact ⟨_, rfl, Expr.value?_binary hleft hright rfl, htree _⟩
  | _ => cases hop

theorem agree_computed {op : BinaryOp} (hop : op = .add ∨ op = .sub ∨ op = .mul)
    {operator : Target.Operator} (hoperator : operator? (some .int) (some .int) op = some operator)
    (hl : SameValue .int (lhs.value? read) (left.tree.value? env))
    (hr : SameValue .int (rhs.value? read) (right.tree.value? env)) :
    SameValue .int ((Expr.binary op lhs rhs).value? read)
      ((binary op operator (some .int) (some .int) left right).tree.value? env) := by
  obtain ⟨_, ha, hleft, hltree⟩ := hl
  obtain ⟨_, hb, hright, hrtree⟩ := hr
  obtain ⟨a, rfl⟩ := Value.exists_int ha
  obtain ⟨b, rfl⟩ := Value.exists_int hb
  rcases hop with rfl | rfl | rfl <;> cases hoperator <;>
    exact ⟨_, rfl, Expr.value?_binary hleft hright rfl,
      Python.Tree.value?_binary hltree hrtree rfl⟩

/-- The left side of `||` and `&&` decides in both languages, or the right side does. -/
theorem agree_decided {op : BinaryOp} (hop : op.isLogical = true) {operator : Target.Operator}
    (hoperator : operator? (some .boolean) (some .boolean) op = some operator)
    (hl : SameValue .boolean (lhs.value? read) (left.tree.value? env))
    (hr : SameValue .boolean (rhs.value? read) (right.tree.value? env)) :
    SameValue .boolean ((Expr.binary op lhs rhs).value? read)
      ((binary op operator (some .boolean) (some .boolean) left right).tree.value? env) := by
  obtain ⟨_, ha, hleft, hltree⟩ := hl
  obtain ⟨_, hb, hright, hrtree⟩ := hr
  obtain ⟨a, rfl⟩ := Value.exists_truth ha
  obtain ⟨b, rfl⟩ := Value.exists_truth hb
  cases op with
  | or =>
      cases hoperator
      cases a with
      | true =>
          exact ⟨.truth true, rfl, Expr.value?_settled hleft rfl,
            Python.Tree.value?_settled hltree rfl⟩
      | false =>
          exact ⟨.truth b, rfl, Expr.value?_binary hleft hright rfl,
            Python.Tree.value?_binary hltree hrtree rfl⟩
  | and =>
      cases hoperator
      cases a with
      | true =>
          exact ⟨.truth b, rfl, Expr.value?_binary hleft hright rfl,
            Python.Tree.value?_binary hltree hrtree rfl⟩
      | false =>
          exact ⟨.truth false, rfl, Expr.value?_settled hleft rfl,
            Python.Tree.value?_settled hltree rfl⟩
  | _ => cases hop

theorem exists_operator {op : BinaryOp} (hop : op.coreType? leftType rightType = some type) :
    ∃ operator, operator? (some leftType) (some rightType) op = some operator := by
  cases op with
  | ushr => cases leftType <;> cases rightType <;> cases hop
  | _ => exact ⟨_, rfl⟩

theorem agree_binary (hstr : env.names "str" = none) {op : BinaryOp}
    (hop : op.coreType? leftType rightType = some type) {operator : Target.Operator}
    (hoperator : operator? (some leftType) (some rightType) op = some operator)
    (hl : SameValue leftType (lhs.value? read) (left.tree.value? env))
    (hr : SameValue rightType (rhs.value? read) (right.tree.value? env)) :
    SameValue type ((Expr.binary op lhs rhs).value? read)
      ((binary op operator (some leftType) (some rightType) left right).tree.value? env) := by
  unfold BinaryOp.coreType? at hop
  split at hop
  · split at hop
    · next hcomparison =>
        cases hop
        exact agree_compared hcomparison hoperator hl hr
    · obtain ⟨harithmetic, htype⟩ := Option.ite_none_right_eq_some.mp hop
      cases htype
      simp only [Bool.or_eq_true, decide_eq_true_eq, or_assoc] at harithmetic
      exact agree_computed harithmetic hoperator hl hr
  · obtain ⟨hlogical, htype⟩ := Option.ite_none_right_eq_some.mp hop
    cases htype
    exact agree_decided hlogical hoperator hl hr
  iterate 3
    · obtain ⟨rfl, htype⟩ := Option.ite_none_right_eq_some.mp hop
      cases htype
      cases hoperator
      exact agree_joined hstr (by simp) (by simp) hl hr
  · cases hop

end Operations

theorem agree_literal {literal : Literal} {type : ValueType} (h : literal.coreType? = some type)
    (env : Python.Env) :
    SameValue type literal.value? ((Lowering.literal literal).tree.value? env) := by
  cases literal with
  | number text =>
      obtain ⟨hdecimal, htype⟩ := Option.ite_none_right_eq_some.mp h
      cases htype
      obtain ⟨n, hvalue, htree⟩ := exists_integer (isDecimal_of_isDecimalInteger hdecimal)
        (isIntegral_of_isDecimalInteger hdecimal)
      refine ⟨.int n, rfl, by rw [Literal.value?, hvalue]; rfl, ?_⟩
      rw [literal, Target.Expr.tree, Python.Tree.value?, htree]
      rfl
  | string text =>
      obtain ⟨hplain, htype⟩ := Option.ite_none_left_eq_some.mp h
      cases htype
      refine ⟨.text text, rfl, if_neg hplain, ?_⟩
      have hbody : ((("\"" ++ text ++ "\"").toList.drop 1).dropLast) = text.toList := by
        simp
      rw [literal, Target.Expr.tree, Python.Tree.value?, Python.unquoted?, hbody, if_neg hplain]
      simp
  | char text => cases h
  | bool value => cases h
  | null => cases h

/-- A core expression is lowered, and where Python finds the values of its names, it gives the text
the value of the expression. -/
theorem exists_agree {types : String → Option ValueType} {table : SymbolTable} {e : Expr}
    {type : ValueType} (h : e.coreType? types = some type)
    (hnames : ∀ name ∈ e.names, (table.lookup? name).map Symbol.type = types name) :
    ∃ t, expr .outside table e = .ok t ∧ ∀ read (vars : Vars), vars "str" = none →
      (∀ name ∈ e.names, ∃ type, types name = some type ∧ SameValue type (read name) (vars name)) →
        SameValue type (e.value? read) (t.tree.value? vars.env) := by
  induction e generalizing type with
  | literal value position =>
      exact ⟨literal value, rfl, fun read vars _ _ => agree_literal h vars.env⟩
  | name word position =>
      refine ⟨.name word, rfl, fun read vars _ hvars => ?_⟩
      obtain ⟨found, hfound, hagree⟩ := hvars word List.mem_cons_self
      cases h.symm.trans hfound
      exact hagree
  | unary op operand ih =>
      obtain ⟨inner, hinner, hop⟩ := Option.bind_eq_some_iff.mp h
      obtain ⟨t, ht, hagree⟩ := ih hinner hnames
      refine ⟨unary op t, ?_, fun read vars hstr hvars =>
        agree_unary hop (hagree read vars hstr hvars)⟩
      rw [expr, ht]
      rfl
  | binary op lhs rhs ihl ihr =>
      obtain ⟨leftType, hleft, hrest⟩ := Option.bind_eq_some_iff.mp h
      obtain ⟨rightType, hright, hop⟩ := Option.bind_eq_some_iff.mp hrest
      obtain ⟨hlnames, hrnames⟩ := List.forall_mem_append.mp hnames
      obtain ⟨left, hl, hlagree⟩ := ihl hleft hlnames
      obtain ⟨right, hr, hragree⟩ := ihr hright hrnames
      obtain ⟨operator, hoperator⟩ := exists_operator hop
      refine ⟨binary op operator (some leftType) (some rightType) left right, ?_,
        fun read vars hstr hvars => ?_⟩
      · rw [expr, SymbolTable.typeOf_of_coreType? hleft hlnames,
          SymbolTable.typeOf_of_coreType? hright hrnames, hoperator, hl, hr]
        rfl
      · obtain ⟨hlvars, hrvars⟩ := List.forall_mem_append.mp hvars
        exact agree_binary hstr hop hoperator (hlagree read vars hstr hlvars)
          (hragree read vars hstr hrvars)
  | assign target op value position => cases h
  | step target op form position => cases h

end Lowering

end MiniJava
