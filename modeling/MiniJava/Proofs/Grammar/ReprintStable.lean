import MiniJava.Proofs.Grammar.ProgramComplete
import MiniJava.Proofs.Syntax.Reprint

/-!
# Reprinting

What spells a tree is one of many runs of tokens that do; the tokens that the tree is printed with
are another. So every program that is read from a text is read again from the tokens that it is
printed with.
-/

namespace MiniJava.Grammar

open Lexeme

def fixedTexts : List String := (keywords ++ symbols).map Prod.fst

theorem isRegular_ofWord {text : String} (h : text ∈ fixedTexts) (position : Position) :
    (Token.ofWord text position).IsRegular := by
  have hall : ∀ text ∈ fixedTexts,
      (tokenize text).any (fun other => other.kind = (Token.fixed text).kind ∧
        other.lexeme = text) = true ∧ (Token.fixed text).kind ≠ .identifier := by
    decide +kernel
  obtain ⟨hlexical, hkind⟩ := hall text h
  obtain ⟨other, hmem, hother⟩ := List.any_eq_true.mp hlexical
  rw [decide_eq_true_eq] at hother
  exact ⟨⟨text, other, hmem, hother⟩, fun h => absurd h hkind⟩

theorem isRegular_fixed {text : String} (h : text ∈ fixedTexts) : (Token.fixed text).IsRegular :=
  isRegular_ofWord h .start

/-- A regular word is the token of its text, wherever that stands. -/
theorem ofWord_eq {token : Token} (h : token.IsRegular)
    (hword : token.kind = .identifier ∨ token.kind ∈ keywords.map Prod.snd)
    (position : Position) : Token.ofWord token.lexeme position = { token with position } := by
  suffices hlookup : ((keywords ++ symbols).lookup token.lexeme).getD .identifier = token.kind by
    rw [Token.ofWord, hlookup]
  rcases hword with hkind | hkind
  · have hsymbol : symbols.lookup token.lexeme = none := by
      refine List.lookup_eq_none_iff.mpr fun entry hmem => ?_
      have hall : ∀ entry ∈ symbols, entry.2 ≠ .identifier := by decide
      refine bne_iff_ne.mpr fun hlexeme => hall entry hmem ?_
      exact (h.lexical.kind_of_symbol (hlexeme ▸ hmem)).symm.trans hkind
    rw [List.lookup_append, h.plain hkind, hsymbol, hkind]
    rfl
  · have hall : ∀ entry ∈ keywords, (keywords ++ symbols).lookup entry.1 = some entry.2 := by
      decide
    rw [hall _ (h.lexical.mem_keywords hkind)]
    rfl

theorem IsName.ofWord_eq {name : Token} (h : IsName name) :
    Token.ofWord name.lexeme name.position = name :=
  Grammar.ofWord_eq h.regular (.inl h.kind) name.position

theorem isRegular_move {token : Token} (h : token.IsRegular) (position : Position) :
    Token.IsRegular { token with position } := ⟨h.lexical, h.plain⟩

def Regular (tokens : List Token) : Prop := ∀ token ∈ tokens, token.IsRegular

namespace Regular

theorem nil : Regular [] := fun _ h => nomatch h

theorem cons {token : Token} {rest : List Token} (h : token.IsRegular) (hrest : Regular rest) :
    Regular (token :: rest) := List.forall_mem_cons.mpr ⟨h, hrest⟩

theorem fixed {text : String} {rest : List Token} (h : text ∈ fixedTexts)
    (hrest : Regular rest) : Regular (.fixed text :: rest) :=
  .cons (isRegular_fixed h) hrest

theorem append {tokens more : List Token} (h : Regular tokens) (hmore : Regular more) :
    Regular (tokens ++ more) := List.forall_mem_append.mpr ⟨h, hmore⟩

end Regular

def bareLevel : Expr → Level
  | .assign _ _ _ _ => .assignment
  | .binary op _ _ => .binary op.precedence
  | _ => .unary

structure Printed (e : Expr) : Prop where
  derives : Derives (bareLevel e) e.tokens e
  regular : Regular e.tokens

namespace Printed

variable {e : Expr}

theorem at_assignment (h : Printed e) : Derives .assignment e.tokens e := by
  have hbare := h.derives
  cases e with
  | assign => exact hbare
  | binary op _ _ => exact .loosest (hbare.loosen op.precedence_pos)
  | _ => exact .loosest (Derives.loosen (.tightest hbare) (by decide))

theorem regular_inParentheses (h : Printed e) : Regular (inParentheses e.tokens) :=
  .fixed (by decide) (h.regular.append (.fixed (by decide) .nil))

theorem at_operand (h : Printed e) : Derives .unary (operandTokens 11 e.strength e.tokens) e := by
  have hbare := h.derives
  have hgroup : Derives .unary (inParentheses e.tokens) e :=
    .operand (.group rfl h.at_assignment rfl)
  cases e with
  | assign => exact hgroup
  | binary op _ _ =>
      have hten := op.precedence_le_ten
      rw [operandTokens, if_pos (by simp only [Expr.strength]; omega)]
      exact hgroup
  | _ => exact hbare

/-- An operand in parentheses only where it binds weaker. -/
theorem at_binary (h : Printed e) {n : Nat} (hpos : 0 < n) (hle : n ≤ 11) :
    Derives (.binary n) (operandTokens n e.strength e.tokens) e := by
  have hbare := h.derives
  rw [operandTokens]
  split
  · exact Derives.loosen (.tightest (.operand (.group rfl h.at_assignment rfl))) hle
  · next hstrength =>
      cases e with
      | assign => exact absurd hpos hstrength
      | binary op _ _ => exact hbare.loosen (Nat.le_of_not_lt hstrength)
      | _ => exact Derives.loosen (.tightest hbare) hle

theorem regular_operand (h : Printed e) (limit : Nat) :
    Regular (operandTokens limit e.strength e.tokens) := by
  rw [operandTokens]
  split
  · exact h.regular_inParentheses
  · exact h.regular

end Printed

/-- Every atom is the token that it was read from. -/
theorem Atom.tokens_eq {token : Token} {e : Expr} (h : Atom token e) (hregular : token.IsRegular) :
    e.tokens = [token] := by
  have hliteral : ∀ value : Literal, token.kind = value.leaf.1 → token.lexeme = value.leaf.2 →
      (Expr.literal value token.position).tokens = [token] := by
    intro value hkind hlexeme
    rw [Expr.tokens, Literal.token, ← hkind, ← hlexeme]
  cases h with
  | number hkind => exact hliteral (.number _) hkind rfl
  | string hkind htext => exact hliteral (.string _) hkind htext
  | char hkind htext => exact hliteral (.char _) hkind htext
  | bool hkind htext => exact hliteral (.bool _) hkind htext
  | null hkind => exact hliteral .null hkind (hregular.lexical.lexeme_of_null hkind)
  | name hkind => rw [Expr.tokens, IsName.ofWord_eq ⟨hkind, hregular⟩]

theorem Atom.printed {token : Token} {e : Expr} (h : Atom token e) (hregular : token.IsRegular) :
    Printed e := by
  have htokens := h.tokens_eq hregular
  have hlevel : bareLevel e = .unary := by cases h <;> rfl
  constructor
  · rw [hlevel, htokens]
    exact .operand (.atom h)
  · rw [htokens]
    exact .cons hregular .nil

/-- A plain name is printed as a name. -/
theorem Printed.isName {target : String} {position : Position}
    (h : Printed (.name target position)) : IsName (.ofWord target position) := by
  refine ⟨?_, h.regular _ (List.mem_singleton_self _)⟩
  have hunary : Derives .unary [.ofWord target position] (.name target position) := h.derives
  generalize hlist : [Token.ofWord target position] = tokens at hunary
  cases hunary with
  | operand hprimary =>
      cases hprimary with
      | atom hatom =>
          cases hatom with
          | name hkind =>
              rw [List.singleton_inj.mp hlist]
              exact hkind
      | group hopening _ _ => simp at hlist

theorem assigns_fixed {sign : Token} {op : Option BinaryOp} (h : Assigns sign op)
    (hregular : sign.IsRegular) :
    Assigns (.fixed (assignText op)) op ∧ assignText op ∈ fixedTexts := by
  cases h with
  | plain => exact ⟨.plain rfl, by decide⟩
  | @compound op hkind hlexeme =>
      have hmem := hregular.lexical.mem_symbols (hkind ▸ by decide)
      have hall : ∀ entry ∈ symbols, entry.2 = .compoundOperator →
          (Token.fixed entry.1).kind = .compoundOperator ∧ entry.1 ∈ fixedTexts := by decide
      obtain ⟨hfixed, htext⟩ := hall _ hmem hkind
      rw [hlexeme] at hfixed htext
      exact ⟨.compound hfixed rfl, htext⟩

theorem binarySymbol_mem (op : BinaryOp) : op.symbol ∈ fixedTexts := by cases op <;> decide

theorem unarySymbol_mem (op : UnaryOp) : op.symbol ∈ fixedTexts := by cases op <;> decide

theorem stepSymbol_mem (op : StepOp) : op.symbol ∈ fixedTexts := by cases op <;> decide

/-- The tokens that an expression is printed with derive it, however it was derived. -/
theorem Derives.printed {level : Level} {tokens : List Token} {e : Expr}
    (h : Derives level tokens e) (hregular : ∀ token ∈ tokens, token.IsRegular) : Printed e := by
  induction h with
  | @assign target sign op tokens value hkind hop _ ih =>
      simp only [List.forall_mem_cons] at hregular
      have hvalue := ih hregular.2.2
      obtain ⟨hassigns, htext⟩ := assigns_fixed hop hregular.2.1
      have htokens : (Expr.assign target.lexeme op value target.position).tokens =
          target :: .fixed (assignText op) :: value.tokens := by
        rw [Expr.tokens, IsName.ofWord_eq ⟨hkind, hregular.1⟩]
      constructor
      · rw [htokens]
        exact .assign hkind hassigns hvalue.at_assignment
      · rw [htokens]
        exact .cons hregular.1 (.fixed htext hvalue.regular)
  | loosest _ ih => exact ih hregular
  | @binary sign op left right lhs rhs _ _ _ ihleft ihright =>
      simp only [List.forall_mem_append, List.forall_mem_cons] at hregular
      have hlhs := ihleft hregular.1
      have hrhs := ihright hregular.2.2
      have hten := op.precedence_le_ten
      exact ⟨.binary rfl (hlhs.at_binary op.precedence_pos (by omega))
          (hrhs.at_binary (by omega) (by omega)),
        (hlhs.regular_operand _).append (.fixed (binarySymbol_mem op) (hrhs.regular_operand _))⟩
  | tighter _ ih => exact ih hregular
  | tightest _ ih => exact ih hregular
  | @sign sign op tokens e _ _ ih =>
      have he := ih (List.forall_mem_cons.mp hregular).2
      exact ⟨.sign rfl he.at_operand, .fixed (unarySymbol_mem op) (he.regular_operand 11)⟩
  | @stepBefore sign target op _ hkind =>
      simp only [List.forall_mem_cons] at hregular
      have hname : IsName target := ⟨hkind, hregular.2.1⟩
      have htokens : (Expr.step target.lexeme op .before target.position).tokens =
          [.fixed op.symbol, target] := by rw [Expr.tokens, hname.ofWord_eq]
      constructor
      · rw [htokens]
        exact .stepBefore rfl hkind
      · rw [htokens]
        exact .fixed (stepSymbol_mem op) (.cons hname.regular .nil)
  | @stepBehind sign op tokens target position _ _ ih =>
      have hname := (ih (List.forall_mem_append.mp hregular).1).isName
      exact ⟨.stepBehind (.atom (.name hname.kind)) rfl,
        .cons hname.regular (.fixed (stepSymbol_mem op) .nil)⟩
  | operand _ ih => exact ih hregular
  | atom hatom => exact hatom.printed (hregular _ (List.mem_singleton_self _))
  | group _ _ _ ih =>
      simp only [List.forall_mem_cons, List.forall_mem_append] at hregular
      exact ih hregular.2.1

def Level.strength : Level → Nat
  | .assignment => 0
  | .binary strength => strength
  | .unary => 11
  | .primary => 12

theorem operandTokens_zero (strength : Nat) (tokens : List Token) :
    operandTokens 0 strength tokens = tokens := if_neg (Nat.not_lt_zero _)

theorem length_operandTokens_le {n limit : Nat} (h : n ≤ limit) (strength : Nat)
    (tokens : List Token) :
    (operandTokens n strength tokens).length ≤ (operandTokens limit strength tokens).length := by
  rw [operandTokens, operandTokens]
  split
  · rw [if_pos (by omega)]
  · split
    · simp only [inParentheses, List.length_cons, List.length_append]
      omega
    · exact le_rfl

/-- Nothing shorter than what an expression is printed with derives it. -/
theorem Derives.shortest {level : Level} {tokens : List Token} {e : Expr}
    (h : Derives level tokens e) :
    (operandTokens level.strength e.strength e.tokens).length ≤ tokens.length := by
  induction h with
  | assign _ _ _ ih =>
      rw [Level.strength, operandTokens_zero] at ih ⊢
      exact Nat.succ_le_succ (Nat.succ_le_succ ih)
  | loosest _ ih => exact (length_operandTokens_le (Nat.zero_le 1) _ _).trans ih
  | @binary sign op left right lhs rhs _ _ _ ihleft ihright =>
      have hbare : ¬ op.precedence < op.precedence := Nat.lt_irrefl _
      rw [Level.strength, Expr.strength, operandTokens, if_neg hbare, Expr.tokens]
      simp only [List.length_append, List.length_cons]
      exact Nat.add_le_add ihleft (Nat.succ_le_succ ihright)
  | tighter _ ih => exact (length_operandTokens_le (Nat.le_succ _) _ _).trans ih
  | tightest _ ih => exact ih
  | sign _ _ ih => exact Nat.succ_le_succ ih
  | stepBefore => exact le_rfl
  | stepBehind _ _ ih =>
      rw [List.length_append]
      exact Nat.succ_le_succ ih
  | operand _ ih => exact (length_operandTokens_le (by decide) _ _).trans ih
  | atom hatom => cases hatom <;> exact le_rfl
  | @group opening closing tokens e _ _ _ ih =>
      have hparentheses : (operandTokens 12 e.strength e.tokens).length ≤ e.tokens.length + 2 := by
        rw [operandTokens]
        split <;> simp [inParentheses]
      rw [Level.strength, operandTokens_zero] at ih
      rw [Level.strength]
      simp only [List.length_cons, List.length_append, List.length_nil]
      omega

structure Prints (P : List Token → Prop) (tokens : List Token) : Prop where
  spells : P tokens
  regular : Regular tokens

theorem SpellsExpr.prints {e : Expr} {tokens : List Token} (h : SpellsExpr e tokens) :
    Prints (SpellsExpr e) e.tokens := by
  have hprinted := h.derives.printed h.regular
  exact ⟨⟨hprinted.at_assignment, hprinted.regular⟩, hprinted.regular⟩

theorem SpellsOption.prints {value : Option Expr} {tokens : List Token}
    (h : SpellsOption value tokens) : Prints (SpellsOption value) (optionTokens value) := by
  cases h with
  | none => exact ⟨.none, .nil⟩
  | some he => exact ⟨.some he.prints.spells, he.prints.regular⟩

theorem SpellsGroup.prints {e : Expr} {tokens : List Token} (h : SpellsGroup e tokens) :
    Prints (SpellsGroup e) (inParentheses e.tokens) := by
  cases h with
  | mk _ he _ =>
      exact ⟨.mk rfl he.prints.spells rfl,
        .fixed (by decide) (he.prints.regular.append (.fixed (by decide) .nil))⟩

section Lists

variable {α : Type} {spells : α → List Token → Prop} {print : α → List Token}
  (hprint : ∀ a tokens, spells a tokens → Prints (spells a) (print a))
include hprint

theorem Commas.prints {list : List α} {tokens : List Token} (h : Commas spells list tokens) :
    Prints (Commas spells list) (withCommas (list.map print)) := by
  induction h with
  | one ha => exact ⟨.one (hprint _ _ ha).spells, (hprint _ _ ha).regular⟩
  | @more a list comma tokens rest ha _ hlist ih =>
      have hfirst := hprint _ _ ha
      have htokens : withCommas ((a :: list).map print) =
          print a ++ .fixed "," :: withCommas (list.map print) := by cases hlist <;> rfl
      rw [htokens]
      exact ⟨.more hfirst.spells rfl ih.spells,
        hfirst.regular.append (.fixed (by decide) ih.regular)⟩

theorem Listed.prints {list : List α} {tokens : List Token} (h : Listed spells list tokens) :
    Prints (Listed spells list) (withCommas (list.map print)) := by
  cases h with
  | none => exact ⟨.none, .nil⟩
  | some hlist => exact ⟨.some (hlist.prints hprint).spells, (hlist.prints hprint).regular⟩

end Lists

theorem prints_modifiers (modifiers : List Modifier) :
    Prints (SpellsModifiers modifiers) (modifierTokens modifiers) := by
  induction modifiers with
  | nil => exact ⟨.nil, .nil⟩
  | cons modifier rest ih =>
      have hword : modifier.word ∈ fixedTexts := by cases modifier <;> decide
      exact ⟨.cons rfl ih.spells, .fixed hword ih.regular⟩

theorem prints_dimensions (n : Nat) : Prints (SpellsDimensions n) (dimensionTokens n) := by
  induction n with
  | zero => exact ⟨.none, .nil⟩
  | succ n ih =>
      exact ⟨.more rfl rfl ih.spells, .fixed (by decide) (.fixed (by decide) ih.regular)⟩

theorem SpellsType.prints {type : TypeName} {tokens : List Token} (h : SpellsType type tokens) :
    Prints (SpellsType type) type.tokens := by
  cases h with
  | @mk head n tokens hhead hregular _ =>
      have hword : head.kind = .identifier ∨ head.kind ∈ keywords.map Prod.snd := by
        simp only [namesType, Bool.or_eq_true, decide_eq_true_eq] at hhead
        rcases hhead with (hkind | hkind) | hvoid
        · exact .inr (hkind ▸ by decide)
        · exact .inl hkind
        · have hmem : (head.lexeme, TokenKind.reservedWord) ∈ keywords := hvoid ▸ by decide
          exact .inr (hregular.kind_of_keyword hmem ▸ by decide)
      have hmove := ofWord_eq hregular hword .start
      have hdims := prints_dimensions n
      have hfixed : (Token.fixed head.lexeme).IsRegular := by
        rw [Token.fixed, hmove]
        exact isRegular_move hregular .start
      have hnames : namesType (.fixed head.lexeme) = true := by
        rw [Token.fixed, hmove]
        exact hhead
      exact ⟨.mk hnames hfixed hdims.spells, .cons hfixed hdims.regular⟩

theorem SpellsInitial.prints {init : Option Expr} {tokens : List Token}
    (h : SpellsInitial init tokens) : Prints (SpellsInitial init) (initialTokens init) := by
  cases h with
  | none => exact ⟨.none, .nil⟩
  | some _ he => exact ⟨.some rfl he.prints.spells, .fixed (by decide) he.prints.regular⟩

theorem SpellsVariable.prints {decl : VarDecl} {tokens : List Token}
    (h : SpellsVariable decl tokens) : Prints (SpellsVariable decl) decl.tokens := by
  cases h with
  | @mk modifiers type name init words head tail _ htype hname hinit =>
      have hwords := prints_modifiers modifiers
      rw [VarDecl.tokens, hname.ofWord_eq]
      exact ⟨.mk hwords.spells htype.prints.spells hname hinit.prints.spells,
        hwords.regular.append (htype.prints.regular.append
          (.cons hname.regular hinit.prints.regular))⟩

theorem SpellsParam.prints {p : Param} {tokens : List Token} (h : SpellsParam p tokens) :
    Prints (SpellsParam p) p.tokens := by
  cases h with
  | mk htype hname =>
      rw [Param.tokens, hname.ofWord_eq]
      exact ⟨.mk htype.prints.spells hname,
        htype.prints.regular.append (.cons hname.regular .nil)⟩

theorem SpellsSimple.prints {s : Stmt} {tokens : List Token} (h : SpellsSimple s tokens) :
    Prints (SpellsSimple s) s.simpleTokens := by
  cases h with
  | declare hdecl hvoid => exact ⟨.declare hdecl.prints.spells hvoid, hdecl.prints.regular⟩
  | expression he => exact ⟨.expression he.prints.spells, he.prints.regular⟩

theorem SpellsStart.prints {init : Option Stmt} {tokens : List Token}
    (h : SpellsStart init tokens) : Prints (SpellsStart init) (startTokens init) := by
  cases h with
  | none => exact ⟨.none, .nil⟩
  | some hs hfits => exact ⟨.some hs.prints.spells hfits, hs.prints.regular⟩

theorem SpellsHeader.prints {header : ForHeader} {tokens : List Token}
    (h : SpellsHeader header tokens) :
    Prints (SpellsHeader header) (headerTokens header.init header.condition header.update) := by
  cases h with
  | mk _ hstart _ hcondition _ hupdate _ =>
      have hlist := hupdate.prints fun _ _ he => he.prints
      exact ⟨.mk rfl hstart.prints.spells rfl hcondition.prints.spells rfl hlist.spells rfl,
        .fixed (by decide) (hstart.prints.regular.append (.fixed (by decide)
          (hcondition.prints.regular.append
          (.fixed (by decide) (hlist.regular.append (.fixed (by decide) .nil))))))⟩

/-- The tokens that a phrase is printed with spell it. Cases are printed in front of what a switch
without them is printed with. -/
def Phrase.Reprints : Phrase → Prop
  | .statement s => Prints (Spells (.statement s)) s.tokens
  | .statements body => Prints (Spells (.statements body)) (allTokens body)
  | .block body => Prints (Spells (.block body)) (inBraces (allTokens body))
  | .clauses list => Prints (Spells (.clauses list)) (catchesTokens list)
  | .sections body =>
    (∀ default tokens, Prints (Spells (.sections ⟨[], default⟩)) tokens →
      Prints (Spells (.sections ⟨body.cases, default⟩)) (casesTokens body.cases ++ tokens)) ∧
    Prints (Spells (.sections ⟨[], body.default⟩)) (defaultTokens body.default ++ [.fixed "\x7d"])

theorem prints_end : Prints (Spells (.sections ⟨[], none⟩)) [.fixed "\x7d"] :=
  ⟨.done rfl, .fixed (by decide) .nil⟩

theorem prints_default {body : List Stmt} (h : (Phrase.statements body).Reprints) :
    Prints (Spells (.sections ⟨[], some body⟩))
      (defaultTokens (some body) ++ [.fixed "\x7d"]) :=
  ⟨.default rfl rfl h.spells (.done rfl),
    .fixed (by decide) (.fixed (by decide) (h.regular.append (.fixed (by decide) .nil)))⟩

theorem prints_print {call : Token} {args : List Expr} {tokens : List Token}
    (hkind : call.kind = .printCall) (hregular : call.IsRegular)
    (hargs : Listed SpellsExpr args tokens) :
    (Phrase.statement (.print (printKind call.lexeme) args call.position)).Reprints := by
  have hlist := hargs.prints fun _ _ he => he.prints
  have hcall : (⟨.printCall, "System.out." ++ (printKind call.lexeme).method, call.position⟩ :
      Token) = call := by
    obtain ⟨method, hmem, hlexeme⟩ := hregular.lexical.exists_method hkind
    have hall : ∀ method ∈ printMethods,
        "System.out." ++ (printKind ("System.out." ++ method)).method =
          "System.out." ++ method := by decide
    rw [hlexeme, hall method hmem, ← hlexeme, ← hkind]
  change Prints _ (Stmt.tokens _)
  rw [Stmt.tokens, hcall]
  exact ⟨.print hkind hregular rfl hlist.spells rfl rfl,
    .cons hregular (.fixed (by decide) (hlist.regular.append (.fixed (by decide)
      (.fixed (by decide) .nil))))⟩

/-- What spells a phrase can be replaced by what the phrase is printed with. -/
theorem Spells.reprints {phrase : Phrase} {tokens : List Token} (h : Spells phrase tokens) :
    phrase.Reprints := by
  induction h with
  | @simple s semicolon tokens hsimple _ =>
      have hs := hsimple.prints
      have htokens : s.tokens = s.simpleTokens ++ [.fixed ";"] := by cases hsimple <;> rfl
      change Prints _ s.tokens
      rw [htokens]
      exact ⟨.simple hs.spells rfl, hs.regular.append (.fixed (by decide) .nil)⟩
  | print hkind hregular _ hargs _ _ => exact prints_print hkind hregular hargs
  | empty => exact ⟨.empty rfl, .fixed (by decide) .nil⟩
  | block _ ih => exact ⟨.block ih.spells, ih.regular⟩
  | @ifThen word e thenBranch _ _ _ he _ ih =>
      have htokens : (Stmt.ifElse e thenBranch none).tokens =
          .fixed "if" :: (inParentheses e.tokens ++ thenBranch.tokens) := by
        rw [Stmt.tokens, elseTokens, List.append_nil]
      change Prints _ (Stmt.tokens _)
      rw [htokens]
      exact ⟨.ifThen rfl he.prints.spells ih.spells,
        .fixed (by decide) (he.prints.regular.append ih.regular)⟩
  | ifElse _ he _ hclosed _ _ ihthen ihelse =>
      exact ⟨.ifElse rfl he.prints.spells ihthen.spells hclosed rfl ihelse.spells,
        .fixed (by decide) (he.prints.regular.append (ihthen.regular.append (.fixed (by decide)
          ihelse.regular)))⟩
  | whileLoop _ he _ ih =>
      exact ⟨.whileLoop rfl he.prints.spells ih.spells,
        .fixed (by decide) (he.prints.regular.append ih.regular)⟩
  | doWhile _ _ _ he _ ih =>
      exact ⟨.doWhile rfl ih.spells rfl he.prints.spells rfl,
        .fixed (by decide) (ih.regular.append (.fixed (by decide) (he.prints.regular.append
          (.fixed (by decide) .nil))))⟩
  | forLoop _ hheader _ ih =>
      exact ⟨.forLoop rfl hheader.prints.spells ih.spells,
        .fixed (by decide) (hheader.prints.regular.append ih.regular)⟩
  | switch _ he _ _ ih =>
      have hbody := ih.1 _ _ ih.2
      exact ⟨.switch rfl he.prints.spells rfl hbody.spells,
        .fixed (by decide) (he.prints.regular.append (.fixed (by decide) hbody.regular))⟩
  | @tryCatch word body list _ _ _ _ _ hsome ihbody ihclauses =>
      have htokens : (Stmt.tryCatch body list none).tokens =
          .fixed "try" :: (inBraces (allTokens body) ++ catchesTokens list) := by
        rw [Stmt.tokens, finallyTokens, List.append_nil]
      change Prints _ (Stmt.tokens _)
      rw [htokens]
      exact ⟨.tryCatch rfl ihbody.spells ihclauses.spells hsome,
        .fixed (by decide) (ihbody.regular.append ihclauses.regular)⟩
  | tryFinally _ _ _ _ _ ihbody ihclauses ihcleanup =>
      exact ⟨.tryFinally rfl ihbody.spells ihclauses.spells rfl ihcleanup.spells,
        .fixed (by decide) (ihbody.regular.append (ihclauses.regular.append (.fixed (by decide)
          ihcleanup.regular)))⟩
  | @returns word _ _ _ _ hvalue _ =>
      have hreturn : Spells _ (.ofWord "return" word.position :: (_ ++ [.fixed ";"])) :=
        .returns rfl hvalue.prints.spells rfl
      exact ⟨hreturn, .cons (isRegular_ofWord (by decide) _)
        (hvalue.prints.regular.append (.fixed (by decide) .nil))⟩
  | breaks => exact ⟨.breaks rfl rfl, .fixed (by decide) (.fixed (by decide) .nil)⟩
  | continues => exact ⟨.continues rfl rfl, .fixed (by decide) (.fixed (by decide) .nil)⟩
  | nil => exact ⟨.nil, .nil⟩
  | cons _ _ ihfirst ih =>
      exact ⟨.cons ihfirst.spells ih.spells, ihfirst.regular.append ih.regular⟩
  | braces _ _ _ ih =>
      exact ⟨.braces rfl ih.spells rfl,
        .fixed (by decide) (ih.regular.append (.fixed (by decide) .nil))⟩
  | noClause => exact ⟨.noClause, .nil⟩
  | clause _ _ htype hname _ _ _ ihbody ih =>
      change Prints _ (catchesTokens _)
      rw [catchesTokens, hname.ofWord_eq]
      exact ⟨.clause rfl rfl htype.prints.spells hname rfl ihbody.spells ih.spells,
        .fixed (by decide) (.fixed (by decide) (htype.prints.regular.append
          (.cons hname.regular (.fixed (by decide) (ihbody.regular.append ih.regular)))))⟩
  | done => exact ⟨fun _ _ h => h, prints_end⟩
  | @label word colon value body others _ _ _ _ he _ _ _ ihbody ih =>
      refine ⟨fun default tokens hdefault => ?_, ih.2⟩
      have hothers := ih.1 default tokens hdefault
      have htokens : casesTokens (⟨value, body⟩ :: others.cases) ++ tokens =
          .fixed "case" :: (value.tokens ++ .fixed ":" ::
            (allTokens body ++ (casesTokens others.cases ++ tokens))) := by
        simp [casesTokens]
      change Prints _ (casesTokens (⟨value, body⟩ :: others.cases) ++ tokens)
      rw [htokens]
      exact ⟨.label rfl he.prints.spells rfl ihbody.spells hothers.spells,
        .fixed (by decide) (he.prints.regular.append (.fixed (by decide) (ihbody.regular.append
          hothers.regular)))⟩
  | @default word colon body others _ _ _ _ _ _ ihbody ih =>
      refine ⟨ih.1, ?_⟩
      have hothers := ih.2
      dsimp only
      cases hdefault : others.default with
      | none => exact prints_default ihbody
      | some last =>
          rw [hdefault] at hothers
          exact hothers

theorem SpellsMethod.prints {decl : Method} {tokens : List Token} (h : SpellsMethod decl tokens) :
    Prints (SpellsMethod decl) decl.tokens := by
  cases h with
  | mk hname _ hparams _ hbody =>
      have hlist := hparams.prints fun _ _ hp => hp.prints
      have hblock := hbody.reprints
      rw [Method.tokens, hname.ofWord_eq]
      exact ⟨.mk hname rfl hlist.spells rfl hblock.spells,
        .cons hname.regular (.fixed (by decide) (hlist.regular.append (.fixed (by decide)
          hblock.regular)))⟩

def ClassPhrase.tokens : ClassPhrase → List Token
  | .decl d => ClassDecl.tokens d
  | .members _ list => membersTokens list

theorem IsName.fixed {name : Token} (h : IsName name) : IsName (.fixed name.lexeme) := by
  rw [Token.fixed, Grammar.ofWord_eq h.regular (.inl h.kind) .start]
  exact ⟨h.kind, isRegular_move h.regular .start⟩

/-- What spells a class can be replaced by what the class is printed with. -/
theorem SpellsClass.reprints {phrase : ClassPhrase} {tokens : List Token}
    (h : SpellsClass phrase tokens) : Prints (SpellsClass phrase) phrase.tokens := by
  induction h with
  | @decl word name _ modifiers list _ _ hname _ _ ih =>
      rw [ClassPhrase.tokens, ClassDecl.tokens]
      have hclass : (Token.ofWord "class" word.position).IsRegular :=
        isRegular_ofWord (by decide) word.position
      exact ⟨@SpellsClass.decl (.ofWord "class" word.position) (.fixed name.lexeme)
          (.fixed "\x7b") modifiers list _ rfl hname.fixed rfl ih.spells,
        .cons hclass (.cons hname.fixed.regular (.fixed (by decide) ih.regular))⟩
  | done =>
      rw [ClassPhrase.tokens, membersTokens]
      exact ⟨.done rfl, .fixed (by decide) .nil⟩
  | skip _ _ ih => exact ih
  | field hdecl _ _ ih =>
      rw [ClassPhrase.tokens, membersTokens]
      exact ⟨.field hdecl.prints.spells rfl ih.spells,
        hdecl.prints.regular.append (.fixed (by decide) ih.regular)⟩
  | @method className decl type list _ _ _ _ _ hreturn htype hdecl _ ih =>
      have hwords := prints_modifiers decl.modifiers
      rw [ClassPhrase.tokens, membersTokens, hreturn]
      exact ⟨.method hwords.spells hreturn htype.prints.spells hdecl.prints.spells ih.spells,
        hwords.regular.append
          (htype.prints.regular.append (hdecl.prints.regular.append ih.regular))⟩
  | @constructor className decl list _ _ _ _ hreturn hclass hdecl _ ih =>
      have hwords := prints_modifiers decl.modifiers
      rw [ClassPhrase.tokens, membersTokens, hreturn, returnTokens, List.nil_append]
      exact ⟨.constructor hwords.spells hreturn hclass hdecl.prints.spells ih.spells,
        hwords.regular.append (hdecl.prints.regular.append ih.regular)⟩
  | @nested className decl list _ _ _ _ _ _ ihdecl ih =>
      have hwords := prints_modifiers decl.modifiers
      rw [ClassPhrase.tokens, membersTokens]
      exact ⟨.nested hwords.spells ihdecl.spells ih.spells,
        hwords.regular.append (ihdecl.regular.append ih.regular)⟩

theorem SpellsItems.reprints {list : List Item} {tokens : List Token}
    (h : SpellsItems list tokens) : Prints (SpellsItems list) (list.flatMap Item.tokens) := by
  induction h with
  | nil => exact ⟨.nil, .nil⟩
  | @declaration decl list _ _ _ _ hdecl _ ih =>
      have hwords := prints_modifiers decl.modifiers
      have hclass := hdecl.reprints
      rw [List.flatMap_cons, Item.tokens, List.append_assoc]
      exact ⟨.declaration hwords.spells hclass.spells ih.spells,
        hwords.regular.append (hclass.regular.append ih.regular)⟩
  | statement hs _ ih =>
      have hstatement := hs.reprints
      rw [List.flatMap_cons, Item.tokens]
      exact ⟨.statement hstatement.spells ih.spells, hstatement.regular.append ih.regular⟩

end MiniJava.Grammar

namespace MiniJava.Program

open Grammar

/-- Every program that is read from a text is read again, positions included, from the tokens that
it is printed with. -/
theorem reprint_stable (source : String) (program : Program)
    (h : ofSource source = .ok program) : ofTokens program.tokens = .ok program := by
  have hitems := spellsItems_of_ofTokens (isTable_tokenize source) h
  have hprints := hitems.reprints
  have hread := hprints.spells.read fun token hmem => (hprints.regular token hmem).lexical
  rw [ofTokens, Program.tokens, hread]
  rfl

/-- An `else` is read again as part of the nearest `if`, without braces, and only the parentheses
that a product around a sum needs are printed. -/
theorem reprint_stable_else :
    ∃ program, ofSource "if (a) while (b) if ((c)) x = (1 + 2) * (3); else y--;" = .ok program ∧
      program.tokens.map Token.lexeme = ["if", "(", "a", ")", "while", "(", "b", ")", "if", "(",
        "c", ")", "x", "=", "(", "1", "+", "2", ")", "*", "3", ";", "else", "y", "--", ";"] ∧
      ofTokens program.tokens = .ok program := by
  obtain ⟨program, hprogram, hlexemes⟩ := exists_program
    "if (a) while (b) if ((c)) x = (1 + 2) * (3); else y--;"
    (fun program => program.tokens.map Token.lexeme = ["if", "(", "a", ")", "while", "(", "b", ")",
      "if", "(", "c", ")", "x", "=", "(", "1", "+", "2", ")", "*", "3", ";", "else", "y", "--",
      ";"])
    (by decide +kernel)
  exact ⟨program, hprogram, hlexemes, reprint_stable _ program hprogram⟩

end MiniJava.Program
