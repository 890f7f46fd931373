import MiniJava.Proofs.Grammar.LeavesKept
import MiniJava.Proofs.Lowering.Grouping
import MiniJava.Proofs.Lowering.Inversion
import MiniJava.Proofs.Target.Neat
import MiniJava.Proofs.Text.Integer
import MiniJava.Proofs.Token.Plain

/-!
# Lowered phrases are neat

The texts of what a phrase of the source is lowered to are identifiers and literals of the source
with fixed texts around them, and a `try` has what the grammar asks of it.
-/

namespace MiniJava

open Python Target

def PlainLeaves (leaves : List Leaf) : Prop := ∀ leaf ∈ leaves, Plain leaf.2

namespace Grammar

theorem SpellsExpr.plainLeaves {e : Expr} {tokens : List Token} (h : SpellsExpr e tokens) :
    PlainLeaves e.leaves := by
  intro leaf hleaf
  have hmem := h.keeps.within.subset hleaf
  exact plain_of_mem_leavesOf (fun token htoken => (h.regular token htoken).lexical) hmem

theorem SpellsOption.plainLeaves {value : Option Expr} {tokens : List Token}
    (h : SpellsOption value tokens) : ∀ e ∈ value, PlainLeaves e.leaves := by
  intro e he
  cases h with
  | none => cases he
  | some hvalue =>
      cases he
      exact hvalue.plainLeaves

theorem SpellsGroup.plainLeaves {e : Expr} {tokens : List Token} (h : SpellsGroup e tokens) :
    PlainLeaves e.leaves := by
  cases h with
  | mk _ he _ => exact he.plainLeaves

theorem Listed.forall_of {α : Type} {spells : α → List Token → Prop} {P : α → Prop}
    (hspells : ∀ a tokens, spells a tokens → P a) {list : List α} {tokens : List Token}
    (h : Listed spells list tokens) : ∀ a ∈ list, P a := by
  cases h with
  | none => simp
  | some hcommas =>
      induction hcommas with
      | one ha =>
          rw [List.forall_mem_singleton]
          exact hspells _ _ ha
      | more ha _ _ ih =>
          rw [List.forall_mem_cons]
          exact ⟨hspells _ _ ha, ih⟩

theorem Listed.plainLeaves {es : List Expr} {tokens : List Token}
    (h : Listed SpellsExpr es tokens) : ∀ e ∈ es, PlainLeaves e.leaves :=
  h.forall_of fun _ _ he => he.plainLeaves

theorem IsName.plain {name : Token} (h : IsName name) : Python.Plain name.lexeme :=
  h.regular.lexical.plain (by rw [h.kind]; rfl)

/-- The name of a declaration and the leaves of its value. -/
theorem SpellsVariable.plain {decl : VarDecl} {tokens : List Token}
    (h : SpellsVariable decl tokens) :
    Python.Plain decl.name ∧ ∀ e ∈ decl.init, PlainLeaves e.leaves := by
  cases h with
  | mk _ _ hname hinit =>
      refine ⟨hname.plain, fun e he => ?_⟩
      cases hinit with
      | none => cases he
      | some _ hvalue =>
          cases he
          exact hvalue.plainLeaves

theorem SpellsParam.plain {param : Param} {tokens : List Token} (h : SpellsParam param tokens) :
    Python.Plain param.name := by
  cases h with
  | mk _ hname => exact hname.plain

/-- What starts a counting loop is a declaration or an expression. -/
theorem SpellsSimple.plainLeaves_start {init : Stmt} {tokens : List Token}
    (h : SpellsSimple init tokens) {counter : RangeLoop.Counter}
    (hcounter : RangeLoop.counter? init = some counter) :
    Python.Plain counter.name ∧ PlainLeaves counter.start.leaves := by
  obtain ⟨decl, rfl, -, hstart, heq⟩ | ⟨rfl, -⟩ := RangeLoop.counter?_cases hcounter
  · cases h with
    | declare hvariable _ =>
        rw [heq]
        exact ⟨hvariable.plain.1, hvariable.plain.2 counter.start hstart⟩
  · cases h with
    | expression he => exact List.forall_mem_cons.mp he.plainLeaves

end Grammar

namespace Lowering

def NeatPlace (place : Place) : Prop := ∀ cls ∈ place.enclosing, Plain cls.name

theorem neat_reference {place : Place} (hplace : NeatPlace place) (table : SymbolTable)
    {name : String} (h : Plain name) : (place.reference table name).Neat := by
  unfold Place.reference
  split
  · next holder hholder =>
      refine ⟨?_, h⟩
      unfold Place.fieldHolder? at hholder
      split at hholder
      · next cls scope symbol kind hcls _ _ =>
          split at hholder
          · cases kind with
            | ofClass =>
                cases hholder
                exact hplace cls hcls
            | ofInstance =>
                cases hholder
                exact plain_of_isPlain (by decide)
          · cases hholder
      · cases hholder
  · exact h

theorem neat_literal {value : Literal} (h : Plain value.leaf.2) : (literal value).Neat := by
  cases value with
  | bool value => exact True.intro
  | null => exact True.intro
  | _ => exact h

theorem neat_unary (op : UnaryOp) {operand : Target.Expr} (h : operand.Neat) :
    (unary op operand).Neat := by
  cases op <;> exact h

theorem neat_asText (type : Option ValueType) {side : Target.Expr} (h : side.Neat) :
    (asText type side).Neat := by
  unfold asText
  split <;> exact h

theorem neat_binary (op : BinaryOp) (operator : Target.Operator)
    (lhsType rhsType : Option ValueType) {lhs rhs : Target.Expr} (hl : lhs.Neat) (hr : rhs.Neat) :
    (binary op operator lhsType rhsType lhs rhs).Neat := by
  unfold binary
  split
  · exact ⟨neat_asText lhsType hl, neat_asText rhsType hr⟩
  · exact ⟨hl, hr⟩

theorem neat_expr {place : Place} (hplace : NeatPlace place) (table : SymbolTable) (e : Expr)
    {t : Target.Expr} (hleaves : PlainLeaves e.leaves) (h : expr place table e = .ok t) :
    t.Neat := by
  induction e generalizing t with
  | literal value _ =>
      cases h
      exact neat_literal (hleaves _ (List.mem_singleton_self _))
  | name name _ =>
      cases h
      exact neat_reference hplace table (hleaves _ (List.mem_singleton_self _))
  | binary op lhs rhs ihl ihr =>
      obtain ⟨hl, hr⟩ := List.forall_mem_append.mp hleaves
      obtain ⟨operator, left, right, _, hleft, hright, rfl⟩ := expr_binary_ok h
      exact neat_binary op operator _ _ (ihl hl hleft) (ihr hr hright)
  | unary op operand ih =>
      obtain ⟨inner, hinner, rfl⟩ := expr_unary_ok h
      exact neat_unary op (ih hleaves hinner)
  | assign _ _ _ _ => cases h
  | step _ _ _ _ => cases h

section Parts

variable {place : Place} (hplace : NeatPlace place)
include hplace

theorem value_neat {e : Expr} (h : PlainLeaves e.leaves) : Yields (value place e) Expr.Neat := by
  intro table t after hout
  exact neat_expr hplace table e h (Prod.mk.inj hout).1

theorem reference_neat {name : String} (h : Plain name) :
    Yields (reference place name) Expr.Neat := by
  intro table t after hout
  cases hout
  exact neat_reference hplace table h

theorem values_neat {es : List Expr} (h : ∀ e ∈ es, PlainLeaves e.leaves) :
    Yields (values place es) fun out => ∀ t ∈ out, t.Neat := by
  induction es with
  | nil => exact Yields.pure (by simp)
  | cons e es ih =>
      rw [List.forall_mem_cons] at h
      refine (value_neat hplace h.1).bind fun t ht => (ih h.2).bind fun ts hts => Yields.pure ?_
      rw [List.forall_mem_cons]
      exact ⟨ht, hts⟩

theorem initial_neat {decl : VarDecl} (h : ∀ e ∈ decl.init, PlainLeaves e.leaves) :
    Yields (initial place decl) Expr.Neat := by
  unfold initial
  cases hinit : decl.init with
  | none =>
      refine Yields.pure ?_
      unfold defaultValue
      split
      · exact plain_of_isPlain (by decide)
      · exact plain_of_isPlain (by decide)
      · exact True.intro
      · split
        · exact plain_of_isPlain (by decide)
        · exact True.intro
  | some e => exact value_neat hplace (h e hinit)

theorem loopCondition_neat {e : Option Expr} (h : ∀ condition ∈ e, PlainLeaves condition.leaves) :
    Yields (loopCondition place e) Expr.Neat := by
  cases e with
  | none => exact Yields.pure True.intro
  | some e => exact value_neat hplace (h e rfl)

theorem effect_neat {e : Expr} (h : PlainLeaves e.leaves) : Yields (effect place e) allNeat := by
  unfold effect
  split
  · next target e position =>
      obtain ⟨htarget, he⟩ := List.forall_mem_cons.mp h
      refine (value_neat hplace he).bind fun source hsource =>
        (reference_neat hplace htarget).bind fun target htarget => Yields.pure ?_
      exact allNeat_single (neat_assign htarget hsource)
  · exact Yields.throw _
  · next target op e position _ =>
      obtain ⟨htarget, he⟩ := List.forall_mem_cons.mp h
      refine (Yields.trivial _).bind fun _ _ => (Yields.trivial _).bind fun _ _ =>
        (value_neat hplace he).bind fun source hsource =>
          (reference_neat hplace htarget).bind fun target htarget => Yields.pure ?_
      exact allNeat_single (neat_update _ htarget hsource)
  · next target op fixity position =>
      have htarget := h _ (List.mem_singleton_self _)
      refine (reference_neat hplace htarget).bind fun target htarget => Yields.pure ?_
      exact allNeat_single (neat_update _ htarget (plain_of_isPlain (by decide)))
  · refine (value_neat hplace h).bind fun t ht => Yields.pure ?_
    exact allNeat_single (neat_expression ht)

theorem effects_neat {es : List Expr} (h : ∀ e ∈ es, PlainLeaves e.leaves) :
    Yields (effects place es) allNeat := by
  induction es with
  | nil => exact Yields.pure True.intro
  | cons e es ih =>
      rw [List.forall_mem_cons] at h
      refine (effect_neat hplace h.1).bind fun first hfirst => (ih h.2).bind fun rest hrest =>
        Yields.pure ?_
      exact allNeat_append hfirst hrest

omit hplace in
theorem unbroken_formatText {text : List Char} (h : '\n' ∉ text) : '\n' ∉ formatText text := by
  fun_induction formatText text with
  | case1 rest ih => simp_all
  | case2 c rest _ ih => simp_all
  | case3 c rest _ _ ih => simp_all
  | case4 => exact h

theorem format_neat {e : Expr} (h : PlainLeaves e.leaves) : Yields (format place e) Expr.Neat := by
  unfold format
  split
  · next text position =>
      have htext := (h _ (List.mem_singleton_self _)).unbroken
      have hbody : '\n' ∉ text.toList := fun hmem => htext (by simp [Literal.leaf, hmem])
      refine Yields.pure (plain_quoted '"' (by decide) (unbroken_formatText hbody) ?_)
      simp
  · exact value_neat hplace h

theorem print_neat (kind : PrintKind) {args : List Expr} (h : ∀ e ∈ args, PlainLeaves e.leaves) :
    Yields (print place kind args) allNeat := by
  have hfirst : ∀ e ∈ args.take 1, PlainLeaves e.leaves := fun e he => h e (List.mem_of_mem_take he)
  have hshown : ∀ newline, Yields (do
      return [Target.Stmt.print (← values place (args.take 1)).head? newline]) allNeat := by
    intro newline
    refine (values_neat hplace hfirst).bind fun out hout => Yields.pure ?_
    exact allNeat_single (neat_print newline fun t ht => hout t (List.mem_of_head? ht))
  unfold print
  split
  · exact Yields.pure True.intro
  · next first rest =>
      rw [List.forall_mem_cons] at h
      refine (format_neat hplace h.1).bind fun format hformat =>
        (values_neat hplace h.2).bind fun values hvalues => Yields.pure ?_
      exact allNeat_single (neat_printFormatted hformat hvalues)
  · exact hshown true
  · exact hshown false

end Parts

def groupsNeat (groups : List (Target.Expr × List Target.Stmt)) : Prop :=
  ∀ group ∈ groups, group.1.Neat ∧ allNeat group.2

theorem neat_alternatives {default : Option (List Target.Stmt)}
    {groups : List (Target.Expr × List Target.Stmt)} (hgroups : groupsNeat groups)
    (hdefault : ∀ body ∈ default, allNeat body) : (alternatives default groups).Neat := by
  induction groups with
  | nil =>
      cases default with
      | none =>
          rw [alternatives, Alternative.Neat]
          exact True.intro
      | some body =>
          rw [alternatives, Alternative.Neat]
          exact hdefault body rfl
  | cons group groups ih =>
      obtain ⟨hfirst, hrest⟩ := List.forall_mem_cons.mp hgroups
      rw [alternatives, Alternative.Neat]
      exact ⟨Expr.plain_toText hfirst.1, hfirst.2, ih hrest⟩

theorem neat_chain {default : Option (List Target.Stmt)}
    {groups : List (Target.Expr × List Target.Stmt)} (hgroups : groupsNeat groups)
    (hdefault : ∀ body ∈ default, allNeat body) : allNeat (chain groups default) := by
  cases groups with
  | nil =>
      cases default with
      | none => exact True.intro
      | some body => exact hdefault body rfl
  | cons group groups =>
      obtain ⟨hfirst, hrest⟩ := List.forall_mem_cons.mp hgroups
      refine allNeat_single ?_
      rw [Stmt.Neat]
      exact ⟨Expr.plain_toText hfirst.1, hfirst.2, neat_alternatives hrest hdefault⟩

theorem neat_matching {subject label : Target.Expr} {pending : Option Target.Expr}
    (hsubject : subject.Neat) (hpending : ∀ earlier ∈ pending, earlier.Neat) (hlabel : label.Neat) :
    (matching subject pending label).Neat := by
  cases pending with
  | none => exact ⟨hsubject, hlabel⟩
  | some earlier => exact ⟨hpending earlier rfl, hsubject, hlabel⟩

theorem plain_toString (n : Int) : Plain (toString n) := by
  refine plain_of_run (fun c => c == '-' || c.isDigit) (Text.toString_ne_empty n) ?_ (by decide)
    (by decide) (by decide)
  intro c hc
  rcases Text.mem_toString hc with rfl | hdigit
  · rfl
  · simp [hdigit]

theorem neat_boundBehind (loop : RangeLoop) {bound : Target.Expr} (h : bound.Neat) :
    (boundBehind loop bound).Neat := by
  have hone : (Target.Expr.number "1").Neat := plain_of_isPlain (by decide)
  unfold boundBehind
  split
  · exact plain_toString _
  · exact ⟨h, hone⟩

theorem rangeBounds_neat {place : Place} (hplace : NeatPlace place) {loop : RangeLoop}
    (hstart : PlainLeaves loop.start.leaves) (hstop : PlainLeaves loop.stop.leaves) :
    Yields (rangeBounds place loop) fun bounds => bounds.1.Neat ∧ bounds.2.Neat := by
  refine (value_neat hplace hstart).bind fun start hstart =>
    (value_neat hplace hstop).bind fun bound hbound => (Yields.trivial _).bind fun _ _ =>
      (Yields.trivial _).bind fun _ _ => Yields.pure ⟨hstart, ?_⟩
  dsimp only
  split
  · exact neat_boundBehind loop hbound
  · exact hbound

open Grammar

theorem declare_neat {place : Place} (hplace : NeatPlace place) (shared : Bool) {decl : VarDecl}
    (hname : Plain decl.name) (hinit : ∀ e ∈ decl.init, PlainLeaves e.leaves) :
    Yields (stmt place shared (.declare decl)) allNeat := by
  rw [stmt]
  refine (initial_neat hplace hinit).bind fun source hsource => (Yields.trivial _).bind fun _ _ =>
    (reference_neat hplace hname).bind fun target htarget => Yields.pure ?_
  exact allNeat_single (neat_assign htarget hsource)

def LowersNeat : Phrase → Prop
  | .statement s => ∀ place, NeatPlace place → ∀ shared, Yields (stmt place shared s) allNeat
  | .statements body => ∀ place, NeatPlace place →
      Yields (stmts place body) allNeat ∧ Yields (caseBody place body) allNeat
  | .block body => ∀ place, NeatPlace place → Yields (stmts place body) allNeat
  | .clauses list => ∀ place, NeatPlace place →
      Yields (handlers place list) fun out => handlersNeat out ∧ (list ≠ [] → out ≠ [])
  | .sections body => ∀ place, NeatPlace place →
      (∀ subject pending, subject.Neat → (∀ earlier ∈ pending, earlier.Neat) →
        Yields (groups place subject pending body.cases) groupsNeat) ∧
      Yields (defaultBody place body.default) fun out => ∀ list ∈ out, allNeat list

/-- A body and then the updates of its loop. -/
theorem round_neat {place : Place} (hplace : NeatPlace place) {body : Stmt} {update : List Expr}
    (hbody : LowersNeat (.statement body)) (hupdate : ∀ e ∈ update, PlainLeaves e.leaves) :
    Yields (inScope do return (← stmt place true body) ++ (← effects place update)) allNeat := by
  refine Yields.inScope ((hbody place hplace true).bind fun out hout =>
    (effects_neat hplace hupdate).bind fun last hlast => Yields.pure ?_)
  exact allNeat_append hout hlast

theorem bareFor_neat {place : Place} (hplace : NeatPlace place) (shared : Bool)
    {condition : Option Expr} {update : List Expr} {body : Stmt}
    (hcondition : ∀ e ∈ condition, PlainLeaves e.leaves)
    (hupdate : ∀ e ∈ update, PlainLeaves e.leaves) (hbody : LowersNeat (.statement body)) :
    Yields (stmt place shared (.forLoop none condition update body)) allNeat := by
  rw [stmt]
  refine Yields.inScope ((loopCondition_neat hplace hcondition).bind fun test htest =>
    (round_neat hplace hbody hupdate).bind fun out hout => Yields.pure (allNeat_single ?_))
  rw [Stmt.Neat]
  exact ⟨Expr.plain_toText htest, hout⟩

theorem for_neat {place : Place} (hplace : NeatPlace place) (shared : Bool)
    {init : Stmt} {tokens : List Token} {condition : Option Expr} {update : List Expr}
    {body : Stmt} (hinit : SpellsSimple init tokens)
    (hstart : LowersNeat (.statement init)) (hcondition : ∀ e ∈ condition, PlainLeaves e.leaves)
    (hupdate : ∀ e ∈ update, PlainLeaves e.leaves) (hbody : LowersNeat (.statement body)) :
    Yields (stmt place shared (.forLoop (some init) condition update body)) allNeat := by
  rw [stmt]
  apply Yields.inScope
  split
  · next loop hloop =>
      obtain ⟨hcounter, op, position, rfl, -⟩ := RangeLoop.exists_of_detect hloop
      obtain ⟨hname, hfirst⟩ := hinit.plainLeaves_start hcounter
      obtain ⟨-, hstop⟩ := List.forall_mem_append.mp (hcondition _ rfl)
      refine (rangeBounds_neat hplace hfirst hstop).bind fun bounds hbounds =>
        (reference_neat hplace hname).bind fun counter hcounter =>
          (hbody place hplace true).inScope.bind fun out hout => Yields.pure (allNeat_single ?_)
      rw [Stmt.Neat]
      exact ⟨Expr.plain_toText hcounter, Expr.plain_toText hbounds.1, Expr.plain_toText hbounds.2,
        hout⟩
  · refine (Yields.trivial _).bind fun _ _ => (hstart place hplace false).bind fun first hfirst =>
      (loopCondition_neat hplace hcondition).bind fun test htest =>
        (round_neat hplace hbody hupdate).bind fun out hout => Yields.pure ?_
    refine allNeat_append hfirst (allNeat_single ?_)
    rw [Stmt.Neat]
    exact ⟨Expr.plain_toText htest, hout⟩

theorem doWhile_neat {place : Place} (hplace : NeatPlace place) (shared : Bool) {e : Expr}
    {body : Stmt} (he : PlainLeaves e.leaves) (hbody : LowersNeat (.statement body)) :
    Yields (stmt place shared (.doWhile body e)) allNeat := by
  rw [stmt]
  refine Yields.bind (P := allNeat) (Yields.inScope ((hbody place hplace true).bind fun out hout =>
    (value_neat hplace he).bind fun condition hcondition => Yields.pure ?_))
    fun round hround => Yields.pure (allNeat_single ?_)
  · have hexit : (Target.Expr.negation condition).Neat := hcondition
    refine allNeat_append hout (allNeat_single ?_)
    rw [Stmt.Neat, Alternative.Neat]
    exact ⟨Expr.plain_toText hexit, allNeat_single neat_breaks, True.intro⟩
  · rw [Stmt.Neat]
    exact ⟨plain_of_isPlain (by decide), hround⟩

/-- An `else` branch is lowered to a neat alternative. -/
theorem alternative_neat {place : Place} (hplace : NeatPlace place) {branch : Stmt}
    (h : LowersNeat (.statement branch)) :
    Yields (alternative place (some branch)) Alternative.Neat := by
  intro table result after hout
  by_cases hif : ∃ e thenBranch elseBranch, branch = .ifElse e thenBranch elseBranch
  · obtain ⟨e, thenBranch, elseBranch, rfl⟩ := hif
    obtain ⟨condition, body, rest, hstmt, rfl⟩ := exists_of_elseIf hout
    obtain ⟨hneat, -⟩ := h place hplace false table _ after hstmt
    rwa [Alternative.Neat, ← Stmt.Neat]
  · have hother : ∀ e thenBranch elseBranch, branch ≠ .ifElse e thenBranch elseBranch := by
      intro e thenBranch elseBranch heq
      exact hif ⟨e, thenBranch, elseBranch, heq⟩
    obtain ⟨body, inner, hbody, -, rfl⟩ := exists_of_otherwise hother hout
    rw [Alternative.Neat]
    exact h place hplace true table.enter body inner hbody

theorem cleanup_neat {place : Place} (hplace : NeatPlace place) {body : List Stmt}
    (h : LowersNeat (.block body)) : Yields (cleanupBody place (some body)) fun out =>
      ∃ last, out = some last ∧ allNeat last := by
  rw [cleanupBody]
  exact (h place hplace).inScope.bind fun last hlast => Yields.pure ⟨last, rfl, hlast⟩

theorem default_neat {place : Place} (hplace : NeatPlace place) {body : List Stmt}
    (h : LowersNeat (.statements body)) : Yields (defaultBody place (some body)) fun out =>
      ∀ list ∈ out, allNeat list := by
  rw [defaultBody]
  refine (h place hplace).2.inScope.bind fun last hlast => Yields.pure fun list hlist => ?_
  cases hlist
  exact hlast

/-- The statements of a label go on up to a `break`. -/
theorem cons_neat {first : Stmt} {rest : List Stmt} (hfirst : LowersNeat (.statement first))
    (hrest : LowersNeat (.statements rest)) : LowersNeat (.statements (first :: rest)) := by
  intro place hplace
  have hone := hfirst place hplace false
  obtain ⟨hall, hlabel⟩ := hrest place hplace
  constructor
  · rw [stmts]
    exact hone.bind fun out hout => hall.bind fun more hmore =>
      Yields.pure (allNeat_append hout hmore)
  · by_cases hbreak : first = .breaks
    · rw [hbreak, caseBody]
      exact Yields.pure True.intro
    · rw [caseBody]
      · exact hone.bind fun out hout => hlabel.bind fun more hmore =>
          Yields.pure (allNeat_append hout hmore)
      · exact hbreak

theorem handlers_neat {place : Place} (hplace : NeatPlace place) (exception : TypeName)
    {name : String} (position : Position) {body : List Stmt} {rest : List (CatchClause Stmt)}
    (hname : Plain name) (hbody : LowersNeat (.block body)) (hrest : LowersNeat (.clauses rest)) :
    Yields (handlers place (⟨exception, name, body, position⟩ :: rest)) fun out =>
      handlersNeat out ∧ out ≠ [] := by
  have hexception : Plain (exceptionName exception) := by
    unfold exceptionName
    split <;> exact plain_of_isPlain (by decide)
  have hinner : Yields (inScope do
      declare name (.ofTypeName exception) position
      stmts place body) allNeat :=
    ((Yields.trivial _).bind fun _ _ => hbody place hplace).inScope
  rw [handlers]
  refine hinner.bind fun out hout => (hrest place hplace).bind fun more hmore => Yields.pure ?_
  rw [handlersNeat]
  exact ⟨⟨hexception, hname, hout, hmore.1⟩, List.cons_ne_nil _ _⟩

theorem groups_neat {place : Place} (hplace : NeatPlace place) {label : Expr} {body : List Stmt}
    {rest : List (SwitchCase Stmt)} (hlabel : PlainLeaves label.leaves)
    (hbody : LowersNeat (.statements body))
    (hrest : ∀ subject pending, subject.Neat → (∀ earlier ∈ pending, earlier.Neat) →
      Yields (groups place subject pending rest) groupsNeat)
    {subject : Target.Expr} {pending : Option Target.Expr} (hsubject : subject.Neat)
    (hpending : ∀ earlier ∈ pending, earlier.Neat) :
    Yields (groups place subject pending (⟨label, body⟩ :: rest)) groupsNeat := by
  rw [groups]
  refine (value_neat hplace hlabel).bind fun test htest => ?_
  have hmatching := neat_matching hsubject hpending htest
  split
  · refine hrest subject _ hsubject fun earlier hearlier => ?_
    cases hearlier
    exact hmatching
  · refine (hbody place hplace).2.inScope.bind fun out hout =>
      (hrest subject none hsubject (by simp)).bind fun more hmore => Yields.pure ?_
    exact List.forall_mem_cons.mpr ⟨⟨hmatching, hout⟩, hmore⟩

theorem simple_neat {s : Stmt} {tokens : List Token} (h : SpellsSimple s tokens) :
    LowersNeat (.statement s) := by
  intro place hplace shared
  cases h with
  | declare hvariable _ => exact declare_neat hplace shared hvariable.plain.1 hvariable.plain.2
  | expression he =>
      rw [stmt]
      exact effect_neat hplace he.plainLeaves

theorem lowersNeat_of_spells {phrase : Phrase} {tokens : List Token} (h : Spells phrase tokens) :
    LowersNeat phrase := by
  induction h with
  | simple hsimple _ => exact simple_neat hsimple
  | print _ _ _ hargs _ _ =>
      intro place hplace shared
      rw [stmt]
      exact print_neat hplace _ hargs.plainLeaves
  | empty _ =>
      intro place _ shared
      rw [stmt]
      exact Yields.pure True.intro
  | block _ ih =>
      intro place hplace shared
      rw [stmt]
      split
      · exact ih place hplace
      · exact (ih place hplace).inScope
  | ifThen _ he _ ih =>
      intro place hplace shared
      rw [stmt, alternative]
      refine (value_neat hplace he.plainLeaves).bind fun condition hcondition =>
        (ih place hplace true).inScope.bind fun body hbody => Yields.pure ?_
      refine allNeat_single ?_
      rw [Stmt.Neat, Alternative.Neat]
      exact ⟨Expr.plain_toText hcondition, hbody, True.intro⟩
  | ifElse _ he _ _ _ _ ihthen ihelse =>
      intro place hplace shared
      rw [stmt]
      refine (value_neat hplace he.plainLeaves).bind fun condition hcondition =>
        (ihthen place hplace true).inScope.bind fun body hbody =>
          (alternative_neat hplace ihelse).bind fun rest hrest => Yields.pure ?_
      refine allNeat_single ?_
      rw [Stmt.Neat]
      exact ⟨Expr.plain_toText hcondition, hbody, hrest⟩
  | whileLoop _ he _ ih =>
      intro place hplace shared
      rw [stmt]
      refine (value_neat hplace he.plainLeaves).bind fun condition hcondition =>
        (ih place hplace true).inScope.bind fun body hbody => Yields.pure ?_
      refine allNeat_single ?_
      rw [Stmt.Neat]
      exact ⟨Expr.plain_toText hcondition, hbody⟩
  | doWhile _ _ _ he _ ih =>
      exact fun place hplace shared => doWhile_neat hplace shared he.plainLeaves ih
  | @forLoop _ header _ _ _ _ hheader _ ih =>
      intro place hplace shared
      obtain ⟨init, condition, update⟩ := header
      cases hheader with
      | mk _ hstart _ hcondition _ hupdate _ =>
          cases hstart with
          | none =>
              exact bareFor_neat hplace shared hcondition.plainLeaves hupdate.plainLeaves ih
          | some hinit _ =>
              exact for_neat hplace shared hinit (simple_neat hinit) hcondition.plainLeaves
                hupdate.plainLeaves ih
  | switch _ he _ _ ih =>
      intro place hplace shared
      obtain ⟨hgroups, hdefault⟩ := ih place hplace
      rw [stmt]
      refine (value_neat hplace he.plainLeaves).bind fun subject hsubject =>
        (hgroups subject none hsubject (by simp)).bind fun groups hgroups =>
          hdefault.bind fun last hlast => Yields.pure ?_
      exact neat_chain hgroups hlast
  | tryCatch _ _ _ hne ihbody ihlist =>
      intro place hplace shared
      rw [stmt, cleanupBody]
      refine (ihbody place hplace).inScope.bind fun body hbody =>
        (ihlist place hplace).bind fun handlers hhandlers => Yields.pure ?_
      refine allNeat_single ?_
      rw [Stmt.Neat]
      exact ⟨hbody, hhandlers.1, hhandlers.2 hne⟩
  | tryFinally _ _ _ _ _ ihbody ihlist ihcleanup =>
      intro place hplace shared
      rw [stmt]
      refine (ihbody place hplace).inScope.bind fun body hbody =>
        (ihlist place hplace).bind fun handlers hhandlers =>
          (cleanup_neat hplace ihcleanup).bind fun cleanup hcleanup =>
            Yields.pure (allNeat_single ?_)
      obtain ⟨last, rfl, hlast⟩ := hcleanup
      rw [Stmt.Neat]
      exact ⟨hbody, hhandlers.1, hlast⟩
  | @returns _ _ value _ _ hvalue _ =>
      intro place hplace shared
      cases value with
      | none =>
          rw [stmt]
          exact Yields.pure (allNeat_single (neat_returns (by simp)))
      | some e =>
          rw [stmt]
          refine (value_neat hplace (hvalue.plainLeaves e rfl)).bind fun t ht =>
            Yields.pure (allNeat_single (neat_returns fun e he => ?_))
          cases he
          exact ht
  | breaks _ _ =>
      intro place hplace shared
      rw [stmt]
      exact Yields.pure (allNeat_single neat_breaks)
  | continues _ _ =>
      intro place hplace shared
      rw [stmt]
      exact Yields.pure (allNeat_single neat_continues)
  | nil =>
      intro place _
      rw [stmts, caseBody]
      exact ⟨Yields.pure True.intro, Yields.pure True.intro⟩
  | cons _ _ ihfirst ihrest => exact cons_neat ihfirst ihrest
  | braces _ _ _ ih => exact fun place hplace => (ih place hplace).1
  | noClause =>
      intro place _
      rw [handlers]
      exact Yields.pure ⟨True.intro, fun hne => absurd rfl hne⟩
  | clause _ _ _ hname _ _ _ ihbody ihlist =>
      intro place hplace
      exact (handlers_neat hplace _ _ hname.plain ihbody ihlist).mono fun out hout =>
        ⟨hout.1, fun _ => hout.2⟩
  | done _ =>
      intro place _
      refine ⟨fun subject pending _ _ => ?_, ?_⟩
      · rw [groups]
        exact Yields.pure (by simp [groupsNeat])
      · rw [defaultBody]
        exact Yields.pure (by simp)
  | label _ hvalue _ _ _ ihbody ihothers =>
      intro place hplace
      obtain ⟨hgroups, hdefault⟩ := ihothers place hplace
      exact ⟨fun _ _ => groups_neat hplace hvalue.plainLeaves ihbody hgroups, hdefault⟩
  | @default _ _ _ others _ _ _ _ _ _ ihbody ihothers =>
      intro place hplace
      obtain ⟨hgroups, hdefault⟩ := ihothers place hplace
      refine ⟨hgroups, ?_⟩
      cases hothers : others.default with
      | none => exact default_neat hplace ihbody
      | some body =>
          rw [hothers] at hdefault
          exact hdefault

end Lowering

end MiniJava
