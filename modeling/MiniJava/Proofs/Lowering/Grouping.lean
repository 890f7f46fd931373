import MiniJava.Lowering.Expression
import MiniJava.Proofs.Grammar.ExpressionExact
import MiniJava.Proofs.Scope.Names
import MiniJava.Proofs.Target.Reading

/-!
# Lowered expressions keep their grouping

The image of an expression is the tree Python should make of it: every operation stands where it
stood, under the Python spelling of its operator, and the sides of a concatenation that are no
strings are turned into text. Python reads the emitted text of an expression as its image.
-/

namespace MiniJava

open Lexeme

def Literal.IsLexical : Literal → Prop
  | .string text => Quotable '"' text.toList
  | .char text => Quotable '\'' text.toList
  | _ => True

namespace Expr

def literals : Expr → List Literal
  | .literal value _ => [value]
  | .name _ _ | .step _ _ _ _ => []
  | .binary _ lhs rhs => lhs.literals ++ rhs.literals
  | .unary _ operand => operand.literals
  | .assign _ _ value _ => value.literals

/-- Names are identifiers, and quoted texts end at their quotes. -/
structure IsLexical (e : Expr) : Prop where
  names : ∀ name ∈ e.names, Python.isIdentifier name = true
  literals : ∀ value ∈ e.literals, value.IsLexical

end Expr

namespace Grammar

theorem isIdentifier_of_isLexical {token : Token} (h : token.IsLexical)
    (hkind : token.kind = .identifier) : Python.isIdentifier token.lexeme = true := by
  obtain ⟨c, body, htext, hstart, hbody⟩ := h.identifier_parts hkind
  simp only [Python.isIdentifier, htext, hstart, Bool.true_and, List.all_eq_true]
  exact hbody

theorem Atom.isLexical {token : Token} {e : Expr} (h : Atom token e)
    (hlexical : token.IsLexical) : e.IsLexical := by
  cases h with
  | @string text hkind htext =>
      obtain ⟨body, hbody, hquotable⟩ := hlexical.exists_string hkind
      have heq : text = body := by
        have htexts := congrArg unquote (htext.symm.trans hbody)
        rwa [unquote_string, unquote_string] at htexts
      exact ⟨by simp [Expr.names], by simpa [Expr.literals, Literal.IsLexical, heq] using hquotable⟩
  | @char text hkind htext =>
      obtain ⟨body, hbody, hquotable⟩ := hlexical.exists_char hkind
      have heq : text = body := by
        have htexts := congrArg unquote (htext.symm.trans hbody)
        rwa [unquote_char, unquote_char] at htexts
      exact ⟨by simp [Expr.names], by simpa [Expr.literals, Literal.IsLexical, heq] using hquotable⟩
  | name hkind =>
      exact ⟨by simpa [Expr.names] using isIdentifier_of_isLexical hlexical hkind,
        by simp [Expr.literals]⟩
  | number _ | bool _ _ | null _ =>
      exact ⟨by simp [Expr.names], by simp [Expr.literals, Literal.IsLexical]⟩

theorem Derives.isLexical {level : Level} {tokens : List Token} {e : Expr}
    (h : Derives level tokens e) (hlexical : ∀ token ∈ tokens, token.IsLexical) : e.IsLexical := by
  induction h with
  | assign hkind _ _ ih =>
      simp only [List.forall_mem_cons] at hlexical
      have hvalue := ih hlexical.2.2
      refine ⟨?_, hvalue.literals⟩
      simpa [Expr.names] using
        ⟨isIdentifier_of_isLexical hlexical.1 hkind, hvalue.names⟩
  | binary _ _ _ ihl ihr =>
      simp only [List.forall_mem_append, List.forall_mem_cons] at hlexical
      have hl := ihl hlexical.1
      have hr := ihr hlexical.2.2
      refine ⟨?_, ?_⟩
      · simpa only [Expr.names, List.forall_mem_append] using ⟨hl.names, hr.names⟩
      · simpa only [Expr.literals, List.forall_mem_append] using ⟨hl.literals, hr.literals⟩
  | loosest _ ih | tighter _ ih | tightest _ ih | operand _ ih => exact ih hlexical
  | sign _ _ ih =>
      simp only [List.forall_mem_cons] at hlexical
      exact ⟨(ih hlexical.2).names, (ih hlexical.2).literals⟩
  | stepBefore _ hkind =>
      simp only [List.forall_mem_cons] at hlexical
      exact ⟨by simpa [Expr.names] using isIdentifier_of_isLexical hlexical.2.1 hkind,
        by simp [Expr.literals]⟩
  | stepBehind _ _ ih =>
      simp only [List.forall_mem_append] at hlexical
      exact ⟨(ih hlexical.1).names, by simp [Expr.literals]⟩
  | atom hatom => exact hatom.isLexical (hlexical _ (by simp))
  | group _ _ _ ih =>
      simp only [List.forall_mem_cons, List.forall_mem_append] at hlexical
      exact ih hlexical.2.1

end Grammar

/-- The literal can stand in Python as it is written. -/
def Literal.IsPortable : Literal → Prop
  | .number text => Python.isDecimal text.toList = true
  | .string text | .char text => Python.IsPlain text.toList
  | _ => True

/-- No name is a Python keyword, and all literals can stand in Python. -/
structure Expr.IsPortable (e : Expr) : Prop where
  names : ∀ name ∈ e.names, name ∉ Python.keywords
  literals : ∀ value ∈ e.literals, value.IsPortable

namespace Lowering

open Python (Tree)

def spelling? (integral : Bool) : BinaryOp → Option String
  | .or => some "or"
  | .and => some "and"
  | .div => some (if integral then "//" else "/")
  | .ushr => none
  | op => some op.symbol

def literalImage : Literal → Tree
  | .number text => .number text
  | .string text => .string ("\"" ++ text ++ "\"")
  | .char text => .string ("'" ++ text ++ "'")
  | .bool value => .constant (if value then "True" else "False")
  | .null => .constant "None"

def operationImage (op : BinaryOp) (symbol : String) (lhs rhs : Tree) : Tree :=
  if op.isComparison then .comparison lhs [(symbol, rhs)] else .binary symbol lhs rhs

def textImage (type : Option ValueType) (side : Tree) : Tree :=
  if type = some .string then side else .call (.name "str") [side]

/-- The sides of a concatenation are turned into text; other operations keep their sides. -/
def binaryImage (op : BinaryOp) (lhsType rhsType : Option ValueType) (lhs rhs : Tree) :
    Option Tree :=
  if op = .add ∧ (lhsType = some .string ∨ rhsType = some .string) then
    some (.binary "+" (textImage lhsType lhs) (textImage rhsType rhs))
  else
    (spelling? (lhsType.any ValueType.isIntegral && rhsType.any ValueType.isIntegral) op).map
      fun symbol => operationImage op symbol lhs rhs

/-- The tree Python should make of an expression; assignments and steps have none. -/
def image (place : Place) (table : SymbolTable) : Expr → Option Tree
  | .literal value _ => some (literalImage value)
  | .name name _ =>
    match place.fieldHolder? table name with
    | some holder => some (.member (.name holder) name)
    | none => some (.name name)
  | .unary op operand => do
    let inner ← image place table operand
    return if op = .not then .negation inner else .sign op.symbol inner
  | .binary op lhs rhs => do
    let left ← image place table lhs
    let right ← image place table rhs
    binaryImage op (table.typeOf lhs) (table.typeOf rhs) left right
  | .assign _ _ _ _ | .step _ _ _ _ => none

end Lowering

/-- Every comparison has two sides. -/
inductive Python.Tree.ChainFree : Python.Tree → Prop
  | number (text : String) : ChainFree (.number text)
  | string (text : String) : ChainFree (.string text)
  | constant (word : String) : ChainFree (.constant word)
  | name (word : String) : ChainFree (.name word)
  | member {holder : Python.Tree} (word : String) : ChainFree holder →
      ChainFree (.member holder word)
  | call {callee argument : Python.Tree} : ChainFree callee → ChainFree argument →
      ChainFree (.call callee [argument])
  | sign {operand : Python.Tree} (symbol : String) : ChainFree operand →
      ChainFree (.sign symbol operand)
  | negation {operand : Python.Tree} : ChainFree operand → ChainFree (.negation operand)
  | comparison {lhs rhs : Python.Tree} (symbol : String) : ChainFree lhs → ChainFree rhs →
      ChainFree (.comparison lhs [(symbol, rhs)])
  | binary {lhs rhs : Python.Tree} (symbol : String) : ChainFree lhs → ChainFree rhs →
      ChainFree (.binary symbol lhs rhs)

namespace Lowering

open Python (Tree)

theorem chainFree_literalImage (value : Literal) : (literalImage value).ChainFree := by
  cases value with
  | number text => exact .number text
  | string text => exact .string _
  | char text => exact .string _
  | bool value => exact .constant _
  | null => exact .constant _

theorem chainFree_textImage (type : Option ValueType) {side : Tree} (h : side.ChainFree) :
    (textImage type side).ChainFree := by
  unfold textImage
  split
  · exact h
  · exact .call (.name "str") h

theorem chainFree_operationImage (op : BinaryOp) (symbol : String) {lhs rhs : Tree}
    (hl : lhs.ChainFree) (hr : rhs.ChainFree) : (operationImage op symbol lhs rhs).ChainFree := by
  unfold operationImage
  split
  · exact .comparison symbol hl hr
  · exact .binary symbol hl hr

theorem chainFree_binaryImage {op : BinaryOp} {lhsType rhsType : Option ValueType}
    {lhs rhs tree : Tree} (hl : lhs.ChainFree) (hr : rhs.ChainFree)
    (h : binaryImage op lhsType rhsType lhs rhs = some tree) : tree.ChainFree := by
  unfold binaryImage at h
  split at h
  · cases h
    exact .binary "+" (chainFree_textImage _ hl) (chainFree_textImage _ hr)
  · obtain ⟨symbol, _, rfl⟩ := Option.map_eq_some_iff.mp h
    exact chainFree_operationImage op symbol hl hr

theorem chainFree_image (place : Place) (table : SymbolTable) (e : Expr) {tree : Tree}
    (h : image place table e = some tree) : tree.ChainFree := by
  induction e generalizing tree with
  | literal value _ =>
      cases h
      exact chainFree_literalImage value
  | name name _ =>
      rw [image] at h
      split at h
      · cases h
        exact .member name (.name _)
      · cases h
        exact .name name
  | binary op lhs rhs ihl ihr =>
      simp only [image, Option.bind_eq_bind, Option.bind_eq_some_iff] at h
      obtain ⟨left, hleft, right, hright, h⟩ := h
      exact chainFree_binaryImage (ihl hleft) (ihr hright) h
  | unary op operand ih =>
      simp only [image, Option.bind_eq_bind, Option.bind_eq_some_iff] at h
      obtain ⟨inner, hinner, h⟩ := h
      cases h
      split
      · exact .negation (ih hinner)
      · exact .sign _ (ih hinner)
  | assign _ _ _ _ => cases h
  | step _ _ _ _ => cases h

theorem tree_literal (value : Literal) : (literal value).tree = literalImage value := by
  cases value with
  | bool value => cases value <;> rfl
  | _ => rfl

theorem spelled_literal {value : Literal} (hlexical : value.IsLexical)
    (hportable : value.IsPortable) : (literal value).Spelled := by
  cases value with
  | number text => exact hportable
  | string text => exact ⟨hlexical, hportable⟩
  | char text => exact ⟨hlexical, hportable⟩
  | bool value => trivial
  | null => trivial

theorem tree_unary (op : UnaryOp) (operand : Target.Expr) :
    (unary op operand).tree =
      if op = .not then .negation operand.tree else .sign op.symbol operand.tree := by
  cases op <;> rfl

theorem spelled_unary (op : UnaryOp) {operand : Target.Expr} (h : operand.Spelled) :
    (unary op operand).Spelled := by
  cases op <;> exact h

theorem tree_asText (type : Option ValueType) (side : Target.Expr) :
    (asText type side).tree = textImage type side.tree := by
  unfold asText textImage
  split <;> rfl

theorem spelled_asText (type : Option ValueType) {side : Target.Expr} (h : side.Spelled) :
    (asText type side).Spelled := by
  unfold asText
  split <;> exact h

/-- The operator a lowering chooses is spelled and grouped as the image asks. -/
theorem operator?_spelling {lhsType rhsType : Option ValueType} {op : BinaryOp}
    {operator : Target.Operator} (h : operator? lhsType rhsType op = some operator) :
    spelling? (lhsType.any ValueType.isIntegral && rhsType.any ValueType.isIntegral) op =
        some operator.symbol ∧
      ∀ lhs rhs, operator.tree lhs rhs = operationImage op operator.symbol lhs rhs := by
  cases op with
  | div =>
      cases hintegral : lhsType.any ValueType.isIntegral && rhsType.any ValueType.isIntegral with
      | false =>
          simp only [operator?, dividesIntegers, hintegral] at h
          cases h
          exact ⟨rfl, fun _ _ => rfl⟩
      | true =>
          simp only [operator?, dividesIntegers, hintegral] at h
          cases h
          exact ⟨rfl, fun _ _ => rfl⟩
  | ushr => cases h
  | _ =>
      cases h
      exact ⟨rfl, fun _ _ => rfl⟩

theorem tree_binary {op : BinaryOp} {lhsType rhsType : Option ValueType}
    {operator : Target.Operator} (h : operator? lhsType rhsType op = some operator)
    (lhs rhs : Target.Expr) :
    binaryImage op lhsType rhsType lhs.tree rhs.tree =
      some (binary op operator lhsType rhsType lhs rhs).tree := by
  have hjoins : op.joinsStrings lhsType rhsType = true ↔
      op = .add ∧ (lhsType = some .string ∨ rhsType = some .string) := by
    simp [BinaryOp.joinsStrings]
  obtain ⟨hspelling, htree⟩ := operator?_spelling h
  unfold binaryImage binary
  by_cases hcase : op = .add ∧ (lhsType = some .string ∨ rhsType = some .string)
  · have hop := hcase.1
    subst hop
    cases h
    rw [if_pos hcase, if_pos (hjoins.mpr hcase), Target.Expr.tree, tree_asText, tree_asText]
    rfl
  · rw [if_neg hcase, if_neg (mt hjoins.mp hcase), hspelling, Option.map_some,
      Target.Expr.tree, htree]

theorem expr_binary_ok {place : Place} {table : SymbolTable} {op : BinaryOp} {lhs rhs : Expr}
    {t : Target.Expr} (h : expr place table (.binary op lhs rhs) = .ok t) :
    ∃ operator left right, operator? (table.typeOf lhs) (table.typeOf rhs) op = some operator ∧
      expr place table lhs = .ok left ∧ expr place table rhs = .ok right ∧
      t = binary op operator (table.typeOf lhs) (table.typeOf rhs) left right := by
  rw [expr] at h
  split at h
  · cases h
  · next operator hoperator =>
      cases hl : expr place table lhs with
      | error error =>
          rw [hl] at h
          cases h
      | ok left =>
          cases hr : expr place table rhs with
          | error error =>
              rw [hl, hr] at h
              cases h
          | ok right =>
              rw [hl, hr] at h
              cases h
              exact ⟨operator, left, right, hoperator, rfl, rfl, rfl⟩

theorem expr_unary_ok {place : Place} {table : SymbolTable} {op : UnaryOp} {operand : Expr}
    {t : Target.Expr} (h : expr place table (.unary op operand) = .ok t) :
    ∃ inner, expr place table operand = .ok inner ∧ t = unary op inner := by
  rw [expr] at h
  cases hoperand : expr place table operand with
  | error error =>
      rw [hoperand] at h
      cases h
  | ok inner =>
      rw [hoperand] at h
      cases h
      exact ⟨inner, rfl, rfl⟩

/-- The image is the tree of what is emitted. -/
theorem image_of_expr (place : Place) (table : SymbolTable) (e : Expr) {t : Target.Expr}
    (h : expr place table e = .ok t) : image place table e = some t.tree := by
  induction e generalizing t with
  | literal value _ =>
      cases h
      rw [image, tree_literal]
  | name name _ =>
      cases h
      rw [image, Place.reference]
      cases place.fieldHolder? table name with
      | none => rfl
      | some holder => rfl
  | binary op lhs rhs ihl ihr =>
      obtain ⟨operator, left, right, hoperator, hl, hr, rfl⟩ := expr_binary_ok h
      rw [image, ihl hl, ihr hr, ← tree_binary hoperator]
      rfl
  | unary op operand ih =>
      obtain ⟨inner, hinner, rfl⟩ := expr_unary_ok h
      rw [image, ih hinner, tree_unary]
      rfl
  | assign _ _ _ _ => cases h
  | step _ _ _ _ => cases h

/-- What the fields in the expression are reached through has a name in Python. -/
def PortableHolders (place : Place) (table : SymbolTable) (e : Expr) : Prop :=
  ∀ name ∈ e.names, ∀ holder ∈ place.fieldHolder? table name, Python.isName holder = true

theorem spelled_of_expr (place : Place) (table : SymbolTable) (e : Expr) (hlexical : e.IsLexical)
    (hportable : e.IsPortable) (hholders : PortableHolders place table e) {t : Target.Expr}
    (h : expr place table e = .ok t) : t.Spelled := by
  induction e generalizing t with
  | literal value _ =>
      cases h
      exact spelled_literal (hlexical.literals value (by simp [Expr.literals]))
        (hportable.literals value (by simp [Expr.literals]))
  | name name _ =>
      cases h
      have hidentifier := hlexical.names name (by simp [Expr.names])
      have hword := hportable.names name (by simp [Expr.names])
      have hname : Python.isName name = true := by simp [Python.isName, hidentifier, hword]
      unfold Place.reference
      split
      · next holder hholder => exact ⟨hholders name (by simp [Expr.names]) holder hholder, hname⟩
      · exact hname
  | binary op lhs rhs ihl ihr =>
      obtain ⟨hlnames, hrnames⟩ := List.forall_mem_append.mp hlexical.names
      obtain ⟨hlliterals, hrliterals⟩ := List.forall_mem_append.mp hlexical.literals
      obtain ⟨hlwords, hrwords⟩ := List.forall_mem_append.mp hportable.names
      obtain ⟨hlvalues, hrvalues⟩ := List.forall_mem_append.mp hportable.literals
      obtain ⟨hlholders, hrholders⟩ := List.forall_mem_append.mp hholders
      obtain ⟨operator, left, right, _, hl, hr, rfl⟩ := expr_binary_ok h
      have hleft := ihl ⟨hlnames, hlliterals⟩ ⟨hlwords, hlvalues⟩ hlholders hl
      have hright := ihr ⟨hrnames, hrliterals⟩ ⟨hrwords, hrvalues⟩ hrholders hr
      unfold binary
      split
      · exact ⟨spelled_asText _ hleft, spelled_asText _ hright⟩
      · exact ⟨hleft, hright⟩
  | unary op operand ih =>
      obtain ⟨inner, hinner, rfl⟩ := expr_unary_ok h
      exact spelled_unary op (ih ⟨hlexical.names, hlexical.literals⟩
        ⟨hportable.names, hportable.literals⟩ hholders hinner)
  | assign _ _ _ _ => cases h
  | step _ _ _ _ => cases h

/-- An expression that is parsed and lowered is read by Python as its image, in any state, and no
comparison of it is chained. -/
theorem expr_keeps_grouping (tokens rest : List Token)
    (hlexical : ∀ token ∈ tokens, token.IsLexical) (e : Expr)
    (hparsed : (Grammar.expression tokens).outcome = .ok (e, rest)) (hportable : e.IsPortable)
    (place : Place) (table : SymbolTable) (hholders : PortableHolders place table e)
    (t : Target.Expr) (h : expr place table e = .ok t) :
    ∃ tree, image place table e = some tree ∧ tree.ChainFree ∧
      ∀ other, Python.Reads t.toText other ↔ other = tree := by
  obtain ⟨read, hread, hderives⟩ := Grammar.took_all.1 tokens hlexical e rest hparsed
  have hlexicals : ∀ token ∈ read, token.IsLexical :=
    fun token hmem => hlexical token (by simp [hread, hmem])
  have hspelled :=
    spelled_of_expr place table e (hderives.isLexical hlexicals) hportable hholders h
  have himage := image_of_expr place table e h
  exact ⟨t.tree, himage, chainFree_image place table e himage,
    Target.Expr.reads_toText_iff t hspelled⟩

/-- A negation binds loosely in Python, and a comparison must not go on over another. -/
theorem expr_keeps_grouping_negation :
    let e : Expr := .binary .eq
      (.unary .not (.binary .lt (.name "a" ⟨1, 3⟩) (.name "b" ⟨1, 7⟩))) (.name "c" ⟨1, 13⟩)
    (Grammar.expression (tokenize "!(a < b) == c")).outcome = .ok (e, []) ∧
      ∃ tree, image .outside .empty e = some tree ∧ tree.ChainFree ∧
        ∀ other, Python.Reads "(not a < b) == c" other ↔ other = tree := by
  intro e
  have hparsed : (Grammar.expression (tokenize "!(a < b) == c")).outcome = .ok (e, []) := by
    decide +kernel
  have hportable : e.IsPortable :=
    ⟨by decide, by simp [e, Expr.literals]⟩
  have hholders : PortableHolders .outside .empty e := by
    intro name _ holder hholder
    cases hholder
  exact ⟨hparsed, expr_keeps_grouping _ _ (fun _ hmem => Token.isLexical_of_mem_tokenize hmem) e
    hparsed hportable .outside .empty hholders
    (.binary .eq (.negation (.binary .lt (.name "a") (.name "b"))) (.name "c")) rfl⟩

/-- Python reads neither a field that is reached through a class called like a keyword, nor a string
with a null character. -/
theorem expr_without_reading :
    let field : Expr := .name "x" ⟨1, 1⟩
    let place : Place := ⟨some ⟨"lambda", 1⟩, some .ofClass⟩
    let table : SymbolTable := ⟨[], [[("x", ⟨.int, ⟨1, 1⟩, true, false⟩)], []]⟩
    let string : Expr := .literal (.string "\x00") ⟨1, 1⟩
    ((Grammar.expression (tokenize "x")).outcome = .ok (field, []) ∧ field.IsPortable ∧
      ∃ t, expr place table field = .ok t ∧ t.toText = "lambda.x" ∧
        ∀ tree, ¬ Python.Reads t.toText tree) ∧
    (Grammar.expression (tokenize "\"\x00\"")).outcome = .ok (string, []) ∧
      ∃ t, expr .outside .empty string = .ok t ∧ ∀ tree, ¬ Python.Reads t.toText tree := by
  intro field place table string
  have hfield : (Grammar.expression (tokenize "x")).outcome = .ok (field, []) := by decide +kernel
  have hportable : field.IsPortable := ⟨by decide, by simp [field, Expr.literals]⟩
  have hstring : (Grammar.expression (tokenize "\"\x00\"")).outcome = .ok (string, []) := by
    decide +kernel
  have hends : Python.EndsWord ['.', 'x'] := by
    intro c hc
    cases hc
    decide
  refine ⟨⟨hfield, hportable, _, rfl, rfl, ?_⟩, hstring, _, rfl, ?_⟩
  · exact Python.not_reads_keyword "lambda" ['.', 'x'] (by decide) hends (by decide) rfl
  · rintro tree ⟨tokens, htokens, -⟩
    cases (Python.tokens?_eq_none (by decide) (by decide)).symm.trans htokens

end Lowering

end MiniJava
