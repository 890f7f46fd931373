import MiniJava.Proofs.Grammar.Derivation
import MiniJava.Proofs.Grammar.Outcome

/-!
# Reading an expression is deriving it

What the reader takes for an expression is derived by the grammar, and what the grammar derives is
read back whole if no operator stands behind it. So the grammar gives a run of tokens at most one
tree.
-/

namespace MiniJava.Grammar

def Weaker (n : Nat) (rest : List Token) : Prop :=
  ∀ token ∈ rest.head?, ∀ op ∈ binaryOp? token, op.precedence < n

def Took (level : Level) (tokens : List Token) (outcome : Outcome Expr) : Prop :=
  ∀ e rest, outcome = .ok (e, rest) → ∃ read, tokens = read ++ rest ∧ Derives level read e

def TookOperators (least : Nat) (tokens : List Token) (outcome : Outcome Expr) : Prop :=
  ∀ e rest, outcome = .ok (e, rest) →
    ∃ read, tokens = read ++ rest ∧ Derives (.binary least) read e ∧ Weaker least rest

def Extended (least : Nat) (lhs : Expr) (tokens : List Token) (outcome : Outcome Expr) : Prop :=
  ∀ left m, least ≤ m → Derives (.binary m) left lhs → Weaker (m + 1) tokens →
    ∀ e rest, outcome = .ok (e, rest) →
      ∃ read, tokens = read ++ rest ∧ Derives (.binary least) (left ++ read) e ∧ Weaker least rest

theorem weaker_twelve (rest : List Token) : Weaker 12 rest :=
  fun _ _ op _ => Nat.lt_of_le_of_lt op.precedence_le_ten (by decide)

theorem took_of_operators {tokens : List Token} {outcome : Outcome Expr}
    (h : TookOperators 1 tokens outcome) : Took .assignment tokens outcome := by
  intro e rest hout
  obtain ⟨read, hread, hderives, _⟩ := h e rest hout
  exact ⟨read, hread, .loosest hderives⟩

theorem took_assign {target sign : Token} {rest : List Token} (hlexical : sign.IsLexical)
    (hbegins : beginsAssignment target sign = true)
    (ih : Took .assignment rest (expression rest).outcome) :
    Took .assignment (target :: sign :: rest) (expression (target :: sign :: rest)).outcome := by
  intro e left hout
  rw [outcome_expression_assign rest hbegins, Outcome.andThen_eq_ok] at hout
  obtain ⟨value, _, hvalue, hresult⟩ := hout
  cases hresult
  obtain ⟨read, rfl, hderives⟩ := ih value left hvalue
  obtain ⟨hkind, op, hop⟩ := (beginsAssignment_iff hlexical).mp hbegins
  rw [hop.assignedOp?_eq hlexical]
  exact ⟨_, rfl, .assign hkind hop hderives⟩

theorem tookOperators_binary {least : Nat} {tokens : List Token} (hleast : least ≤ 11)
    (hunary : Took .unary tokens (unary tokens).outcome)
    (hclimb : ∀ lhs rest, rest.length < tokens.length → rest <:+ tokens →
      Extended least lhs rest (climb least lhs rest).outcome) :
    TookOperators least tokens (binary least tokens).outcome := by
  intro e rest hout
  rw [outcome_binary, Outcome.andThen_eq_ok] at hout
  obtain ⟨lhs, behind, hlhs, hresult⟩ := hout
  have hshorter := Reading.length_lt_of_outcome hlhs
  obtain ⟨left, rfl, hderives⟩ := hunary lhs behind hlhs
  have hextended := hclimb lhs behind hshorter (List.suffix_append ..)
  obtain ⟨read, rfl, htree, hweaker⟩ :=
    hextended left 11 hleast (.tightest hderives) (weaker_twelve behind) e rest hresult
  exact ⟨left ++ read, (List.append_assoc ..).symm, htree, hweaker⟩

theorem extended_stop {least : Nat} {lhs : Expr} {tokens : List Token} {outcome : Outcome Expr}
    (hout : outcome = .ok (lhs, tokens)) (hweaker : Weaker least tokens) :
    Extended least lhs tokens outcome := by
  intro left m hm hleft _ e rest hresult
  rw [hout] at hresult
  cases hresult
  exact ⟨[], rfl, by simpa using hleft.loosen hm, hweaker⟩

theorem extended_go {least : Nat} {lhs : Expr} {token : Token} {op : BinaryOp}
    {tokens : List Token} (hlexical : token.IsLexical) (hop : binaryOp? token = some op)
    (hleast : least ≤ op.precedence)
    (hright : TookOperators (op.precedence + 1) tokens (binary (op.precedence + 1) tokens).outcome)
    (hclimb : ∀ rhs rest, rest.length < tokens.length → rest <:+ tokens →
      Extended least (.binary op lhs rhs) rest (climb least (.binary op lhs rhs) rest).outcome) :
    Extended least lhs (token :: tokens) (climb least lhs (token :: tokens)).outcome := by
  intro left m _ hleft hweaker e rest hout
  rw [outcome_climb_go lhs tokens hop hleast, Outcome.andThen_eq_ok] at hout
  obtain ⟨rhs, behind, hrhs, hresult⟩ := hout
  have hshorter := Reading.length_lt_of_outcome hrhs
  obtain ⟨right, rfl, hderives, hbehind⟩ := hright rhs behind hrhs
  have hstrength : op.precedence ≤ m := Nat.lt_succ_iff.mp (hweaker token rfl op hop)
  have hsign : token.lexeme = op.symbol := (binaryOp?_eq_some_iff hlexical).mp hop
  have htree := Derives.binary hsign (hleft.loosen hstrength) hderives
  have hextended := hclimb rhs behind hshorter (List.suffix_append ..)
  obtain ⟨read, rfl, hwhole, hrest⟩ :=
    hextended _ op.precedence hleast htree hbehind e rest hresult
  exact ⟨token :: (right ++ read), by simp, by simpa using hwhole, hrest⟩

theorem took_sign {token : Token} {op : UnaryOp} {tokens : List Token}
    (hop : UnaryOp.ofSymbol? token.lexeme = some op)
    (ih : Took .unary tokens (unary tokens).outcome) :
    Took .unary (token :: tokens) (unary (token :: tokens)).outcome := by
  intro e rest hout
  rw [outcome_unary_sign tokens hop, Outcome.andThen_eq_ok] at hout
  obtain ⟨operand, _, hoperand, hresult⟩ := hout
  cases hresult
  obtain ⟨read, rfl, hderives⟩ := ih operand rest hoperand
  exact ⟨token :: read, rfl, .sign (UnaryOp.symbol_of_ofSymbol? hop).symm hderives⟩

theorem took_stepBefore {token : Token} {op : StepOp} {tokens : List Token}
    (hunary : UnaryOp.ofSymbol? token.lexeme = none)
    (hop : StepOp.ofSymbol? token.lexeme = some op) :
    Took .unary (token :: tokens) (unary (token :: tokens)).outcome := by
  intro e rest hout
  rw [outcome_unary_step tokens hunary hop, Outcome.andThen_eq_ok] at hout
  obtain ⟨target, _, htarget, hresult⟩ := hout
  cases hresult
  cases tokens with
  | nil => cases htarget
  | cons next tokens =>
      rw [outcome_identifier_cons] at htarget
      split at htarget
      · next hkind =>
          cases htarget
          exact ⟨[token, target], rfl, .stepBefore (StepOp.symbol_of_ofSymbol? hop).symm hkind⟩
      · cases htarget

theorem took_operand {token : Token} {tokens : List Token}
    (hunary : UnaryOp.ofSymbol? token.lexeme = none)
    (hstep : StepOp.ofSymbol? token.lexeme = none)
    (ih : Took .primary (token :: tokens) (primary (token :: tokens)).outcome) :
    Took .unary (token :: tokens) (unary (token :: tokens)).outcome := by
  intro e rest hout
  rw [outcome_unary_operand tokens hunary hstep, Outcome.andThen_eq_ok] at hout
  obtain ⟨operand, behind, hoperand, hresult⟩ := hout
  obtain ⟨read, hread, hderives⟩ := ih operand behind hoperand
  rw [hread]
  unfold stepBehind at hresult
  split at hresult
  · cases hresult
    exact ⟨read, rfl, .operand hderives⟩
  · split at hresult
    · next target position op hop =>
        cases hresult
        refine ⟨read ++ [_], ?_, .stepBehind hderives (StepOp.symbol_of_ofSymbol? hop).symm⟩
        rw [List.append_assoc]
        rfl
    · cases hresult
      exact ⟨read, rfl, .operand hderives⟩

theorem took_group {token : Token} {tokens : List Token} (hatom : atom? token = none)
    (hopening : token.lexeme = "(") (ih : Took .assignment tokens (expression tokens).outcome) :
    Took .primary (token :: tokens) (primary (token :: tokens)).outcome := by
  intro e rest hout
  rw [outcome_primary_group tokens hatom hopening, Outcome.andThen_eq_ok] at hout
  obtain ⟨inner, behind, hinner, hresult⟩ := hout
  rw [Outcome.andThen_eq_ok] at hresult
  obtain ⟨closing, _, hclosing, hresult⟩ := hresult
  cases hresult
  obtain ⟨read, rfl, hderives⟩ := ih e behind hinner
  cases behind with
  | nil => cases hclosing
  | cons next behind =>
      rw [outcome_expect_cons] at hclosing
      split at hclosing
      · next hlexeme =>
          cases hclosing
          exact ⟨token :: (read ++ [closing]), by simp, .group hopening hderives hlexeme⟩
      · cases hclosing

/-- Every reader of expressions takes tokens of its own level. -/
theorem took_all :
    (∀ tokens, (∀ token ∈ tokens, token.IsLexical) →
      Took .assignment tokens (expression tokens).outcome) ∧
    (∀ least tokens, least ≤ 11 → (∀ token ∈ tokens, token.IsLexical) →
      TookOperators least tokens (binary least tokens).outcome) ∧
    (∀ least lhs tokens, (∀ token ∈ tokens, token.IsLexical) →
      Extended least lhs tokens (climb least lhs tokens).outcome) ∧
    (∀ tokens, (∀ token ∈ tokens, token.IsLexical) →
      Took .unary tokens (unary tokens).outcome) ∧
    ∀ tokens, (∀ token ∈ tokens, token.IsLexical) →
      Took .primary tokens (primary tokens).outcome := by
  apply expression.mutual_induct
  case case1 =>
    intro ih hlexical
    rw [outcome_expression_nil]
    exact took_of_operators (ih (by decide) hlexical)
  case case2 =>
    intro token ih hlexical
    rw [outcome_expression_singleton]
    exact took_of_operators (ih (by decide) hlexical)
  case case3 =>
    intro target sign rest hbegins ih hlexical
    simp only [List.forall_mem_cons] at hlexical
    exact took_assign hlexical.2.1 hbegins (ih hlexical.2.2)
  case case4 =>
    intro target sign rest hbegins ih hlexical
    rw [outcome_expression_binary rest (Bool.eq_false_iff.mpr hbegins)]
    exact took_of_operators (ih (by decide) hlexical)
  case case5 =>
    intro least tokens hunary hclimb hleast hlexical
    exact tookOperators_binary hleast (hunary hlexical) fun lhs rest hshorter hsuffix =>
      hclimb lhs rest hshorter fun token hmem => hlexical token (hsuffix.mem hmem)
  case case6 =>
    intro least lhs _
    exact extended_stop (outcome_climb_nil least lhs) (by simp [Weaker])
  case case7 =>
    intro least lhs token rest hop _
    have hweaker : Weaker least (token :: rest) := by simp [Weaker, hop]
    exact extended_stop (outcome_climb_stop lhs rest (hweaker token rfl)) hweaker
  case case8 =>
    intro least lhs token rest op hop hless _
    have hweaker : Weaker least (token :: rest) := by simpa [Weaker, hop] using hless
    exact extended_stop (outcome_climb_stop lhs rest (hweaker token rfl)) hweaker
  case case9 =>
    intro least lhs token rest op hop hless hright hclimb hlexical
    simp only [List.forall_mem_cons] at hlexical
    have hstrength := op.precedence_le_ten
    exact extended_go hlexical.1 hop (Nat.not_lt.mp hless) (hright (by omega) hlexical.2)
      fun rhs tail hshorter hsuffix => hclimb rhs tail (Nat.lt_succ_of_lt hshorter)
        fun token hmem => hlexical.2 token (hsuffix.mem hmem)
  case case10 =>
    intro _ _ e rest hout
    rw [outcome_unary_nil, outcome_primary_nil] at hout
    cases hout
  case case11 =>
    intro token rest op hop ih hlexical
    simp only [List.forall_mem_cons] at hlexical
    exact took_sign hop (ih hlexical.2)
  case case12 =>
    intro token rest op hop hunary _
    exact took_stepBefore hunary hop
  case case13 =>
    intro token rest hstep hunary ih hlexical
    exact took_operand hunary hstep (ih hlexical)
  case case14 =>
    intro _ e rest hout
    rw [outcome_primary_nil] at hout
    cases hout
  case case15 =>
    intro token rest e hatom hlexical e' rest' hout
    rw [outcome_primary_atom rest hatom] at hout
    cases hout
    exact ⟨[token], rfl, .atom (atom_of_atom? (hlexical token (by simp)) hatom)⟩
  case case16 =>
    intro token rest hatom hopening ih hlexical
    simp only [List.forall_mem_cons] at hlexical
    exact took_group hatom hopening (ih hlexical.2)
  case case17 =>
    intro token rest hatom hopening _ e rest' hout
    rw [outcome_primary_other rest hatom hopening] at hout
    cases hout

def NoStep (rest : List Token) : Prop :=
  ∀ token ∈ rest.head?, StepOp.ofSymbol? token.lexeme = none

def EndsExpression (rest : List Token) : Prop :=
  ∀ token ∈ rest.head?, token.IsLexical ∧ token.kind.isOperator = false

theorem EndsExpression.noStep {rest : List Token} (h : EndsExpression rest) : NoStep rest := by
  intro token htoken
  obtain ⟨hlexical, hkind⟩ := h token htoken
  refine Option.eq_none_iff_forall_not_mem.mpr fun op hop => ?_
  rw [hlexical.kind_of_stepOp (StepOp.symbol_of_ofSymbol? hop).symm] at hkind
  cases hkind

theorem EndsExpression.weaker {rest : List Token} (h : EndsExpression rest) (n : Nat) :
    Weaker n rest := by
  intro token htoken op hop
  have hkind := (h token htoken).2
  unfold binaryOp? at hop
  split at hop
  all_goals simp_all [TokenKind.isOperator]

theorem noStep_binary {sign : Token} {op : BinaryOp} (rest : List Token)
    (h : sign.lexeme = op.symbol) : NoStep (sign :: rest) := by
  intro token htoken
  cases htoken
  rw [h]
  cases op <;> decide

theorem climb_weaker {least : Nat} (lhs : Expr) {rest : List Token} (h : Weaker least rest) :
    (climb least lhs rest).outcome = .ok (lhs, rest) := by
  cases rest with
  | nil => exact outcome_climb_nil least lhs
  | cons token rest => exact outcome_climb_stop lhs rest (h token rfl)

/-- What the reader of a level makes of derived tokens in front of others. -/
def ReadBack : Level → List Token → Expr → Prop
  | .assignment, tokens, e => ∀ rest, EndsExpression rest →
      (expression (tokens ++ rest)).outcome = .ok (e, rest)
  | .binary n, tokens, e => ∀ least rest, least ≤ n → NoStep rest → Weaker (n + 1) rest →
      (binary least (tokens ++ rest)).outcome = (climb least e rest).outcome
  | .unary, tokens, e => ∀ rest, NoStep rest → (unary (tokens ++ rest)).outcome = .ok (e, rest)
  | .primary, tokens, e => ∀ rest, (primary (tokens ++ rest)).outcome = .ok (e, rest)

def Plain : List Token → Prop
  | target :: sign :: _ => beginsAssignment target sign = false
  | _ => True

def NoAssigns (rest : List Token) : Prop :=
  ∀ token ∈ rest.head?, token.kind ≠ .assignmentOperator ∧ token.kind ≠ .compoundOperator

theorem plain_of_first {first : Token} (tail : List Token) (h : first.kind ≠ .identifier) :
    Plain (first :: tail) := by
  cases tail with
  | nil => trivial
  | cons sign tail => simp [Plain, beginsAssignment, h]

theorem plain_of_second (first : Token) {tail : List Token} (h : NoAssigns tail) :
    Plain (first :: tail) := by
  cases tail with
  | nil => trivial
  | cons sign tail => simp [Plain, beginsAssignment, h sign rfl]

theorem noAssigns_binary {sign : Token} {op : BinaryOp} (rest : List Token)
    (hlexical : sign.IsLexical) (h : sign.lexeme = op.symbol) : NoAssigns (sign :: rest) := by
  intro token htoken
  cases htoken
  have hop := (binaryOp?_eq_some_iff hlexical).mpr h
  constructor
  · intro hkind
    simp [binaryOp?, hkind] at hop
  · intro hkind
    simp [binaryOp?, hkind] at hop

theorem EndsExpression.noAssigns {rest : List Token} (h : EndsExpression rest) :
    NoAssigns rest := by
  intro token htoken
  have hkind := (h token htoken).2
  constructor
  · intro heq
    simp [heq, TokenKind.isOperator] at hkind
  · intro heq
    simp [heq, TokenKind.isOperator] at hkind

/-- Only an assignment begins like one. -/
theorem Derives.plain {level : Level} {tokens : List Token} {e : Expr}
    (h : Derives level tokens e) (hlevel : level ≠ .assignment)
    (hlexical : ∀ token ∈ tokens, token.IsLexical) {rest : List Token} (hrest : NoAssigns rest) :
    Plain (tokens ++ rest) := by
  induction h generalizing rest with
  | assign => exact absurd rfl hlevel
  | loosest => exact absurd rfl hlevel
  | @binary sign op left right lhs rhs hsign _ _ ihl _ =>
      rw [List.append_assoc]
      have hmem := hlexical sign (by simp)
      exact ihl (by simp) (fun token htoken => hlexical token (by simp [htoken]))
        (noAssigns_binary _ hmem hsign)
  | tighter _ ih => exact ih (by simp) hlexical hrest
  | tightest _ ih => exact ih (by simp) hlexical hrest
  | @sign sign op tokens e hsign _ _ =>
      refine plain_of_first _ fun hkind => ?_
      have hoperator := (hlexical sign (by simp)).kind_of_unaryOp hsign
      simp [hkind, TokenKind.isOperator] at hoperator
  | @stepBefore sign target op hsign _ =>
      refine plain_of_first _ fun hkind => ?_
      simp [(hlexical sign (by simp)).kind_of_stepOp hsign] at hkind
  | @stepBehind sign op tokens target position _ hsign ih =>
      rw [List.append_assoc]
      refine ih (by simp) (fun token htoken => hlexical token (by simp [htoken])) ?_
      intro token htoken
      cases htoken
      simp [(hlexical sign (by simp)).kind_of_stepOp hsign]
  | operand _ ih => exact ih (by simp) hlexical hrest
  | atom _ => exact plain_of_second _ hrest
  | @group opening closing tokens e hopening _ _ _ =>
      refine plain_of_first _ fun hkind => ?_
      simp [(hlexical opening (by simp)).kind_of_open hopening] at hkind

theorem outcome_expression_plain {tokens : List Token} (h : Plain tokens) :
    (expression tokens).outcome = (binary 1 tokens).outcome := by
  match tokens with
  | [] => exact outcome_expression_nil
  | [token] => exact outcome_expression_singleton token
  | target :: sign :: rest => exact outcome_expression_binary rest h

theorem readBack_assign {target sign : Token} {op : Option BinaryOp} {tokens : List Token}
    {value : Expr} (hlexical : sign.IsLexical) (hkind : target.kind = .identifier)
    (hop : Assigns sign op) (ih : ReadBack .assignment tokens value) :
    ReadBack .assignment (target :: sign :: tokens)
      (.assign target.lexeme op value target.position) := by
  intro rest hends
  have hbegins := (beginsAssignment_iff hlexical).mpr ⟨hkind, op, hop⟩
  rw [List.cons_append, List.cons_append, outcome_expression_assign _ hbegins, ih rest hends,
    Outcome.ok_andThen, hop.assignedOp?_eq hlexical]

theorem readBack_loosest {tokens : List Token} {e : Expr} (h : Derives (.binary 1) tokens e)
    (hlexical : ∀ token ∈ tokens, token.IsLexical) (ih : ReadBack (.binary 1) tokens e) :
    ReadBack .assignment tokens e := by
  intro rest hends
  have hplain := h.plain (by simp) hlexical hends.noAssigns
  rw [outcome_expression_plain hplain, ih 1 rest (le_refl 1) hends.noStep (hends.weaker 2)]
  exact climb_weaker e (hends.weaker 1)

theorem readBack_binary {sign : Token} {op : BinaryOp} {left right : List Token} {lhs rhs : Expr}
    (hlexical : sign.IsLexical) (hsign : sign.lexeme = op.symbol)
    (ihl : ReadBack (.binary op.precedence) left lhs)
    (ihr : ReadBack (.binary (op.precedence + 1)) right rhs) :
    ReadBack (.binary op.precedence) (left ++ sign :: right) (.binary op lhs rhs) := by
  intro least rest hleast hstep hweaker
  have hop := (binaryOp?_eq_some_iff hlexical).mpr hsign
  have hbehind : Weaker (op.precedence + 1) (sign :: (right ++ rest)) := by
    simp [Weaker, hop]
  have hstronger : Weaker (op.precedence + 2) rest := fun token htoken other hother =>
    Nat.lt_succ_of_lt (hweaker token htoken other hother)
  rw [List.append_assoc, List.cons_append,
    ihl least _ hleast (noStep_binary _ hsign) hbehind, outcome_climb_go _ _ hop hleast,
    ihr _ rest (le_refl _) hstep hstronger, climb_weaker rhs hweaker, Outcome.ok_andThen]

theorem readBack_tightest {tokens : List Token} {e : Expr} (ih : ReadBack .unary tokens e) :
    ReadBack (.binary 11) tokens e := by
  intro least rest _ hstep _
  rw [outcome_binary, ih rest hstep, Outcome.ok_andThen]

theorem readBack_sign {sign : Token} {op : UnaryOp} {tokens : List Token} {e : Expr}
    (hsign : sign.lexeme = op.symbol) (ih : ReadBack .unary tokens e) :
    ReadBack .unary (sign :: tokens) (.unary op e) := by
  intro rest hstep
  have hop : UnaryOp.ofSymbol? sign.lexeme = some op := by rw [hsign, UnaryOp.ofSymbol?_symbol]
  rw [List.cons_append, outcome_unary_sign _ hop, ih rest hstep, Outcome.ok_andThen]

theorem readBack_stepBefore {sign target : Token} {op : StepOp} (hsign : sign.lexeme = op.symbol)
    (hkind : target.kind = .identifier) :
    ReadBack .unary [sign, target] (.step target.lexeme op .before target.position) := by
  intro rest _
  have hop : StepOp.ofSymbol? sign.lexeme = some op := by rw [hsign, StepOp.ofSymbol?_symbol]
  have hunary : UnaryOp.ofSymbol? sign.lexeme = none := by
    rw [hsign]
    cases op <;> decide
  rw [List.cons_append, outcome_unary_step _ hunary hop, List.cons_append,
    outcome_identifier_cons, if_pos hkind]
  rfl

theorem readBack_stepBehind {sign : Token} {op : StepOp} {tokens : List Token} {target : String}
    {position : Position} (h : Derives .primary tokens (.name target position))
    (hlexical : ∀ token ∈ tokens, token.IsLexical) (hsign : sign.lexeme = op.symbol)
    (ih : ReadBack .primary tokens (.name target position)) :
    ReadBack .unary (tokens ++ [sign]) (.step target op .behind position) := by
  intro rest _
  have hop : StepOp.ofSymbol? sign.lexeme = some op := by rw [hsign, StepOp.ofSymbol?_symbol]
  obtain ⟨first, tail, rfl, hunary, hstep⟩ := h.head_of_primary hlexical
  have hread := ih (sign :: rest)
  rw [List.cons_append] at hread
  rw [List.append_assoc, List.cons_append, outcome_unary_operand _ hunary hstep,
    List.cons_append, List.nil_append, hread, Outcome.ok_andThen, stepBehind_step _ _ _ hop]
  rfl

theorem readBack_operand {tokens : List Token} {e : Expr} (h : Derives .primary tokens e)
    (hlexical : ∀ token ∈ tokens, token.IsLexical) (ih : ReadBack .primary tokens e) :
    ReadBack .unary tokens e := by
  intro rest hnone
  obtain ⟨first, tail, rfl, hunary, hstep⟩ := h.head_of_primary hlexical
  have hread := ih rest
  rw [List.cons_append] at hread
  rw [List.cons_append, outcome_unary_operand _ hunary hstep, hread, Outcome.ok_andThen]
  cases rest with
  | nil => rfl
  | cons next rest =>
      rw [stepBehind_other _ _ (hnone next rfl)]
      rfl

theorem readBack_group {opening closing : Token} {tokens : List Token} {e : Expr}
    (hopen : opening.IsLexical) (hclose : closing.IsLexical) (hopening : opening.lexeme = "(")
    (hclosing : closing.lexeme = ")") (ih : ReadBack .assignment tokens e) :
    ReadBack .primary (opening :: (tokens ++ [closing])) e := by
  intro rest
  have hatom : atom? opening = none := by simp [atom?, hopen.kind_of_open hopening]
  have hends : EndsExpression (closing :: rest) := by
    intro token htoken
    cases htoken
    exact ⟨hclose, by simp [hclose.kind_of_close hclosing, TokenKind.isOperator]⟩
  rw [List.cons_append, outcome_primary_group _ hatom hopening, List.append_assoc,
    List.cons_append, List.nil_append, ih _ hends, Outcome.ok_andThen, outcome_expect_cons,
    if_pos hclosing, Outcome.ok_andThen]

/-- What is derived is read back, level by level. -/
theorem Derives.readBack {level : Level} {tokens : List Token} {e : Expr}
    (h : Derives level tokens e) (hlexical : ∀ token ∈ tokens, token.IsLexical) :
    ReadBack level tokens e := by
  induction h with
  | @assign target sign op tokens value hkind hop _ ih =>
      simp only [List.forall_mem_cons] at hlexical
      exact readBack_assign hlexical.2.1 hkind hop (ih hlexical.2.2)
  | loosest h ih => exact readBack_loosest h hlexical (ih hlexical)
  | binary hsign _ _ ihl ihr =>
      simp only [List.forall_mem_append, List.forall_mem_cons] at hlexical
      exact readBack_binary hlexical.2.1 hsign (ihl hlexical.1) (ihr hlexical.2.2)
  | tighter _ ih =>
      intro least rest hleast hstep hweaker
      exact ih hlexical least rest (Nat.le_succ_of_le hleast) hstep fun token htoken op hop =>
        Nat.lt_succ_of_lt (hweaker token htoken op hop)
  | tightest _ ih => exact readBack_tightest (ih hlexical)
  | sign hsign _ ih =>
      simp only [List.forall_mem_cons] at hlexical
      exact readBack_sign hsign (ih hlexical.2)
  | stepBefore hsign hkind => exact readBack_stepBefore hsign hkind
  | stepBehind h hsign ih =>
      simp only [List.forall_mem_append] at hlexical
      exact readBack_stepBehind h hlexical.1 hsign (ih hlexical.1)
  | operand h ih => exact readBack_operand h hlexical (ih hlexical)
  | atom hatom => exact fun rest => outcome_primary_atom rest hatom.atom?_eq
  | group hopening _ hclosing ih =>
      simp only [List.forall_mem_cons, List.forall_mem_append] at hlexical
      exact readBack_group hlexical.1 hlexical.2.2.1 hopening hclosing (ih hlexical.2.1)

/-- The tokens from index `p` up to index `q`. -/
def span (table : List Token) (p q : Nat) : List Token := (table.drop p).take (q - p)

/-- From an index of a table of lexical tokens, an expression is read up to another index only if
the tokens between derive it, and it is read if they do and no operator stands behind them. -/
theorem expression_exact (table : List Token) (hlexical : ∀ token ∈ table, token.IsLexical)
    (p : Nat) (e : Expr) :
    (∀ rest, (expression (table.drop p)).outcome = .ok (e, rest) →
      ∃ q, p < q ∧ q ≤ table.length ∧ rest = table.drop q ∧
        Derives .assignment (span table p q) e) ∧
    (∀ q, p ≤ q → Derives .assignment (span table p q) e →
      (∀ token ∈ table[q]?, token.kind.isOperator = false) →
      (expression (table.drop p)).outcome = .ok (e, table.drop q)) ∧
    ∀ q other, Derives .assignment (span table p q) e →
      Derives .assignment (span table p q) other → other = e := by
  have hfrom : ∀ n, ∀ token ∈ table.drop n, token.IsLexical :=
    fun n token hmem => hlexical token (List.mem_of_mem_drop hmem)
  have hspan : ∀ q, ∀ token ∈ span table p q, token.IsLexical :=
    fun q token hmem => hfrom p token (List.mem_of_mem_take hmem)
  refine ⟨?_, ?_, ?_⟩
  · intro rest hout
    have hshorter := Reading.length_lt_of_outcome hout
    obtain ⟨read, hread, hderives⟩ := took_all.1 _ (hfrom p) e rest hout
    have hlength := congrArg List.length hread
    rw [List.length_drop] at hshorter
    rw [List.length_drop, List.length_append] at hlength
    have hstop : table.drop (p + read.length) = rest := by
      rw [← List.drop_drop, hread, List.drop_left]
    refine ⟨p + read.length, by omega, by omega, hstop.symm, ?_⟩
    rwa [span, Nat.add_sub_cancel_left, hread, List.take_left]
  · intro q hpq hderives hends
    have hsplit : table.drop p = span table p q ++ table.drop q := by
      have hdrop : table.drop q = (table.drop p).drop (q - p) := by
        rw [List.drop_drop, Nat.add_sub_cancel' hpq]
      rw [hdrop, span, List.take_append_drop]
    rw [hsplit]
    refine hderives.readBack (hspan q) _ fun token htoken => ?_
    have hhead : (table.drop q).head? = table[q]? := List.head?_drop
    have hmem : token ∈ table.drop q := List.mem_of_mem_head? htoken
    exact ⟨hfrom q token hmem, hends token (hhead ▸ htoken)⟩
  · intro q other hone hother
    have hend : EndsExpression [] := by simp [EndsExpression]
    have hread := hone.readBack (hspan q) [] hend
    rw [hother.readBack (hspan q) [] hend] at hread
    exact (Prod.mk.inj (Except.ok.inj hread)).1

/-- Subtraction groups to the left. -/
theorem expression_exact_difference :
    (∀ token ∈ tokenize "a-b-c;", token.IsLexical) ∧
      ∃ q, 0 < q ∧ q ≤ (tokenize "a-b-c;").length ∧
        [⟨.delimiter, ";", ⟨1, 6⟩⟩] = (tokenize "a-b-c;").drop q ∧
        Derives .assignment (span (tokenize "a-b-c;") 0 q)
          (.binary .sub (.binary .sub (.name "a" ⟨1, 1⟩) (.name "b" ⟨1, 3⟩))
            (.name "c" ⟨1, 5⟩)) := by
  have hlexical : ∀ token ∈ tokenize "a-b-c;", token.IsLexical :=
    fun _ hmem => Token.isLexical_of_mem_tokenize hmem
  exact ⟨hlexical, (expression_exact _ hlexical 0 _).1 _ (by decide +kernel)⟩

end MiniJava.Grammar
