import MiniJava.Grammar.Expression
import MiniJava.Proofs.Token.Lexical

/-!
# The grammar of expressions

From loosest to tightest: assignments, which group to the right; the binary levels one to ten, one
for each binding strength, which group to the left; signs and steps; literals, names and
parentheses. A derivation relates the tokens of an expression to its tree.
-/

namespace MiniJava.Grammar

open Lexeme

inductive Level where
  | assignment
  | binary (strength : Nat)
  | unary
  | primary

inductive Assigns (sign : Token) : Option BinaryOp → Prop
  | plain : sign.kind = .assignmentOperator → Assigns sign none
  | compound {op : BinaryOp} : sign.kind = .compoundOperator → sign.lexeme = op.symbol ++ "=" →
      Assigns sign (some op)

inductive Atom (token : Token) : Expr → Prop
  | number : token.kind = .number → Atom token (.literal (.number token.lexeme) token.position)
  | string {text : String} : token.kind = .stringLiteral → token.lexeme = "\"" ++ text ++ "\"" →
      Atom token (.literal (.string text) token.position)
  | char {text : String} : token.kind = .charLiteral → token.lexeme = "'" ++ text ++ "'" →
      Atom token (.literal (.char text) token.position)
  | bool {value : Bool} : token.kind = .booleanLiteral →
      token.lexeme = cond value "true" "false" → Atom token (.literal (.bool value) token.position)
  | null : token.kind = .nullLiteral → Atom token (.literal .null token.position)
  | name : token.kind = .identifier → Atom token (.name token.lexeme token.position)

/-- The tokens are an expression of the given level, and the tree is what they stand for. -/
inductive Derives : Level → List Token → Expr → Prop
  | assign {target sign : Token} {op : Option BinaryOp} {tokens : List Token} {value : Expr} :
      target.kind = .identifier → Assigns sign op → Derives .assignment tokens value →
      Derives .assignment (target :: sign :: tokens)
        (.assign target.lexeme op value target.position)
  | loosest {tokens : List Token} {e : Expr} : Derives (.binary 1) tokens e →
      Derives .assignment tokens e
  | binary {sign : Token} {op : BinaryOp} {left right : List Token} {lhs rhs : Expr} :
      sign.lexeme = op.symbol → Derives (.binary op.precedence) left lhs →
      Derives (.binary (op.precedence + 1)) right rhs →
      Derives (.binary op.precedence) (left ++ sign :: right) (.binary op lhs rhs)
  | tighter {n : Nat} {tokens : List Token} {e : Expr} : Derives (.binary (n + 1)) tokens e →
      Derives (.binary n) tokens e
  | tightest {tokens : List Token} {e : Expr} : Derives .unary tokens e →
      Derives (.binary 11) tokens e
  | sign {sign : Token} {op : UnaryOp} {tokens : List Token} {e : Expr} :
      sign.lexeme = op.symbol → Derives .unary tokens e →
      Derives .unary (sign :: tokens) (.unary op e)
  | stepBefore {sign target : Token} {op : StepOp} : sign.lexeme = op.symbol →
      target.kind = .identifier →
      Derives .unary [sign, target] (.step target.lexeme op .before target.position)
  | stepBehind {sign : Token} {op : StepOp} {tokens : List Token} {target : String}
      {position : Position} : Derives .primary tokens (.name target position) →
      sign.lexeme = op.symbol →
      Derives .unary (tokens ++ [sign]) (.step target op .behind position)
  | operand {tokens : List Token} {e : Expr} : Derives .primary tokens e → Derives .unary tokens e
  | atom {token : Token} {e : Expr} : Atom token e → Derives .primary [token] e
  | group {opening closing : Token} {tokens : List Token} {e : Expr} : opening.lexeme = "(" →
      Derives .assignment tokens e → closing.lexeme = ")" →
      Derives .primary (opening :: (tokens ++ [closing])) e

theorem Derives.loosen {m n : Nat} {tokens : List Token} {e : Expr}
    (h : Derives (.binary m) tokens e) (hle : n ≤ m) : Derives (.binary n) tokens e := by
  induction hle with
  | refl => exact h
  | step _ ih => exact ih h.tighter

@[simp] theorem unquote_string (text : String) : unquote ("\"" ++ text ++ "\"") = text := by
  simp [unquote]

@[simp] theorem unquote_char (text : String) : unquote ("'" ++ text ++ "'") = text := by
  simp [unquote]

theorem Atom.atom?_eq {token : Token} {e : Expr} (h : Atom token e) : atom? token = some e := by
  cases h with
  | number hkind => simp [atom?, hkind]
  | string hkind htext => simp [atom?, hkind, htext]
  | char hkind htext => simp [atom?, hkind, htext]
  | @bool value hkind htext => cases value <;> simp [atom?, hkind, htext]
  | null hkind => simp [atom?, hkind]
  | name hkind => simp [atom?, hkind]

theorem atom_of_atom? {token : Token} {e : Expr} (hlexical : token.IsLexical)
    (h : atom? token = some e) : Atom token e := by
  unfold atom? at h
  split at h
  · next hkind => exact Option.some.inj h ▸ .number hkind
  · next hkind =>
      obtain ⟨text, htext, _⟩ := hlexical.exists_string hkind
      rw [htext, unquote_string] at h
      exact Option.some.inj h ▸ .string hkind htext
  · next hkind =>
      obtain ⟨text, htext, _⟩ := hlexical.exists_char hkind
      rw [htext, unquote_char] at h
      exact Option.some.inj h ▸ .char hkind htext
  · next hkind =>
      rcases hlexical.lexeme_of_bool hkind with htext | htext
      · rw [htext] at h
        exact Option.some.inj h ▸ .bool hkind htext
      · rw [htext] at h
        exact Option.some.inj h ▸ .bool hkind htext
  · next hkind => exact Option.some.inj h ▸ .null hkind
  · next hkind => exact Option.some.inj h ▸ .name hkind
  · cases h

theorem binaryOp?_eq_some_iff {token : Token} (hlexical : token.IsLexical) {op : BinaryOp} :
    binaryOp? token = some op ↔ token.lexeme = op.symbol := by
  constructor
  · intro h
    unfold binaryOp? at h
    split at h
    all_goals first | cases h | exact (BinaryOp.symbol_of_ofSymbol? h).symm
  · intro h
    have hmem : ∃ entry ∈ symbols, entry.1 = op.symbol ∧
        entry.2 ∈ [.arithmeticOperator, .relationalOperator, .logicalOperator,
          TokenKind.bitwiseOperator] := by
      cases op <;> decide
    obtain ⟨⟨text, kind⟩, hkind, htext, hoperator⟩ := hmem
    have hlexeme : token.lexeme = text := h.trans htext.symm
    have htoken : token.kind = kind := hlexical.kind_of_symbol (hlexeme ▸ hkind)
    rw [← htoken] at hoperator
    simp only [List.mem_cons, List.not_mem_nil, or_false] at hoperator
    rcases hoperator with hkind | hkind | hkind | hkind
    all_goals simp [binaryOp?, hkind, h]

theorem Assigns.assignedOp?_eq {sign : Token} {op : Option BinaryOp} (h : Assigns sign op)
    (hlexical : sign.IsLexical) : assignedOp? sign.lexeme = op := by
  cases h with
  | plain hkind =>
      rw [hlexical.lexeme_of_assignment hkind]
      decide
  | compound hkind hlexeme => simp [assignedOp?, hlexeme]

theorem beginsAssignment_iff {target sign : Token} (hlexical : sign.IsLexical) :
    beginsAssignment target sign = true ↔
      target.kind = .identifier ∧ ∃ op, Assigns sign op := by
  rw [beginsAssignment, Bool.and_eq_true, Bool.or_eq_true]
  simp only [decide_eq_true_eq]
  refine and_congr_right fun _ => ⟨?_, ?_⟩
  · rintro (hkind | hkind)
    · exact ⟨none, .plain hkind⟩
    · obtain ⟨op, hop⟩ := hlexical.lexeme_of_compound hkind
      exact ⟨some op, .compound hkind hop⟩
  · rintro ⟨op, hkind | hkind⟩
    · exact .inl hkind
    · exact .inr hkind

/-- An operand begins with a token that is neither a sign nor a step. -/
theorem Derives.head_of_primary {tokens : List Token} {e : Expr} (h : Derives .primary tokens e)
    (hlexical : ∀ token ∈ tokens, token.IsLexical) :
    ∃ first tail, tokens = first :: tail ∧ UnaryOp.ofSymbol? first.lexeme = none ∧
      StepOp.ofSymbol? first.lexeme = none := by
  cases h with
  | @atom token _ hatom =>
      have hkind : token.kind.isOperator = false := by
        cases hatom <;> simp_all [TokenKind.isOperator]
      have hlex := hlexical token (by simp)
      refine ⟨_, _, rfl, Option.eq_none_iff_forall_not_mem.mpr ?_,
        Option.eq_none_iff_forall_not_mem.mpr ?_⟩
      · intro op hop
        have hoperator := hlex.kind_of_unaryOp (UnaryOp.symbol_of_ofSymbol? hop).symm
        rw [hkind] at hoperator
        cases hoperator
      · intro op hop
        rw [hlex.kind_of_stepOp (StepOp.symbol_of_ofSymbol? hop).symm] at hkind
        cases hkind
  | group hopening _ _ =>
      refine ⟨_, _, rfl, ?_, ?_⟩
      · rw [hopening]
        decide
      · rw [hopening]
        decide

end MiniJava.Grammar
