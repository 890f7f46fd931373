import MiniJava.Proofs.Python.Grammar

/-!
# Python expressions are unambiguous

A reader that takes tokens from the left and never turns back follows every derivation, so tokens
have at most one tree.
-/

namespace MiniJava.Python

def extend (chained : Bool) (lhs : Tree) (op : String) (rhs : Tree) : Tree :=
  match chained, lhs with
  | true, .comparison first others => .comparison first (others ++ [(op, rhs)])
  | _, lhs => .comparison lhs [(op, rhs)]

-- No reader leaves more tokens than it was given; saying so makes the recursion end.
mutual

def read (least : Nat) (tokens : List Token) : Option (Tree × List Token) := do
  let (lhs, rest) ← operand least tokens
  if rest.length ≤ tokens.length then climb least false lhs rest else none
termination_by 3 * tokens.length + 2
decreasing_by all_goals omega

def operand (least : Nat) : List Token → Option (Tree × List Token)
  | [] => none
  | token :: rest =>
    if token = .word "not" then
      if least ≤ 3 then (read 3 rest).map fun r => (.negation r.1, r.2) else none
    else if isSign token then (read 11 rest).map fun r => (.sign token.text r.1, r.2)
    else primary (token :: rest)
termination_by tokens => 3 * tokens.length + 1
decreasing_by
  all_goals
    simp only [List.length_cons]
    omega

/-- Extends a left operand by the operators behind it; `chained` says that it is a comparison under
way. -/
def climb (least : Nat) (chained : Bool) (lhs : Tree) : List Token → Option (Tree × List Token)
  | [] => some (lhs, [])
  | token :: rest =>
    match strength? token with
    | none => some (lhs, token :: rest)
    | some n =>
      if n < least then some (lhs, token :: rest)
      else do
        let (rhs, behind) ← read (n + 1) rest
        if behind.length ≤ rest.length then
          if n = 4 then climb least true (extend chained lhs token.text rhs) behind
          else climb least false (.binary token.text lhs rhs) behind
        else none
termination_by tokens => 3 * tokens.length
decreasing_by
  all_goals
    simp only [List.length_cons]
    omega

def primary : List Token → Option (Tree × List Token)
  | [] => none
  | token :: rest =>
    match atom? token with
    | some e => trailers e rest
    | none =>
      if token = .symbol "(" then do
        let (e, behind) ← read 1 rest
        if behind.length ≤ rest.length ∧ behind.head? = some (.symbol ")") then
          trailers e behind.tail
        else none
      else none
termination_by tokens => 3 * tokens.length
decreasing_by
  all_goals
    simp only [List.length_cons, List.length_tail]
    omega

def trailers (e : Tree) : List Token → Option (Tree × List Token)
  | [] => some (e, [])
  | token :: rest =>
    if token = .symbol "." then
      match rest with
      | .word word :: rest => if isName word then trailers (.member e word) rest else none
      | _ => none
    else if token = .symbol "(" then
      if rest.head? = some (.symbol ")") then trailers (.call e []) rest.tail
      else do
        let (argument, behind) ← read 1 rest
        if behind.length ≤ rest.length then arguments e [argument] behind else none
    else some (e, token :: rest)
termination_by tokens => 3 * tokens.length
decreasing_by
  all_goals
    simp only [List.length_cons, List.length_tail]
    omega

def arguments (callee : Tree) (operands : List Tree) : List Token → Option (Tree × List Token)
  | [] => none
  | token :: rest =>
    if token = .symbol "," then do
      let (argument, behind) ← read 1 rest
      if behind.length ≤ rest.length then arguments callee (operands ++ [argument]) behind
      else none
    else if token = .symbol ")" then trailers (.call callee operands) rest
    else none
termination_by tokens => 3 * tokens.length
decreasing_by
  all_goals
    simp only [List.length_cons]
    omega

end

theorem read_of_operand {least : Nat} {tokens rest : List Token} {lhs : Tree}
    (h : operand least (tokens ++ rest) = some (lhs, rest)) :
    read least (tokens ++ rest) = climb least false lhs rest := by
  have hlength : rest.length ≤ (tokens ++ rest).length := by simp
  rw [read, h]
  exact if_pos hlength

theorem operand_not {least : Nat} (h : least ≤ 3) (rest : List Token) :
    operand least (.word "not" :: rest) = (read 3 rest).map fun r => (.negation r.1, r.2) := by
  rw [operand, if_pos rfl, if_pos h]

theorem operand_sign (least : Nat) {op : Token} (h : isSign op = true) (rest : List Token) :
    operand least (op :: rest) = (read 11 rest).map fun r => (.sign op.text r.1, r.2) := by
  have hnot : op ≠ .word "not" := by
    rintro rfl
    simp [isSign] at h
  rw [operand, if_neg hnot, if_pos h]

theorem operand_primary (least : Nat) {token : Token} (rest : List Token)
    (hnot : token ≠ .word "not") (hsign : isSign token = false) :
    operand least (token :: rest) = primary (token :: rest) := by
  rw [operand, if_neg hnot, hsign, if_neg Bool.false_ne_true]

/-- The next token neither continues an operand nor is an operator stronger than `n`. -/
def Behind (n : Nat) (rest : List Token) : Prop :=
  ∀ token ∈ rest.head?, token ≠ .symbol "." ∧ token ≠ .symbol "(" ∧
    ∀ s ∈ strength? token, s ≤ n

theorem climb_stop {least n : Nat} (chained : Bool) (lhs : Tree) {rest : List Token}
    (h : Behind n rest) (hlt : n < least) : climb least chained lhs rest = some (lhs, rest) := by
  cases rest with
  | nil => rw [climb]
  | cons token rest =>
      rw [climb]
      cases hs : strength? token with
      | none => rfl
      | some s =>
          have hle := (h token rfl).2.2 s hs
          simp only [if_pos (show s < least by omega)]

theorem climb_binary {least n : Nat} (chained : Bool) (lhs : Tree) {op : Token}
    {right rest : List Token} {rhs : Tree} (h : strength? op = some n) (hn : n ≠ 4)
    (hle : least ≤ n) (hread : read (n + 1) (right ++ rest) = some (rhs, rest)) :
    climb least chained lhs (op :: (right ++ rest)) =
      climb least false (.binary op.text lhs rhs) rest := by
  have hlength : rest.length ≤ (right ++ rest).length := by simp
  rw [climb, h]
  simp only [if_neg (Nat.not_lt.mpr hle), if_neg hn, hread]
  exact if_pos hlength

theorem climb_compare {least : Nat} (chained : Bool) (lhs : Tree) {op : Token}
    {right rest : List Token} {rhs : Tree} (h : strength? op = some 4) (hle : least ≤ 4)
    (hread : read 5 (right ++ rest) = some (rhs, rest)) :
    climb least chained lhs (op :: (right ++ rest)) =
      climb least true (extend chained lhs op.text rhs) rest := by
  have hlength : rest.length ≤ (right ++ rest).length := by simp
  rw [climb, h]
  simp only [if_neg (Nat.not_lt.mpr hle), if_true, hread]
  exact if_pos hlength

/-- Whether a comparison is under way matters only in front of another one. -/
theorem climb_chained (least : Nat) (lhs : Tree) {rest : List Token} (h : Behind 3 rest) :
    climb least true lhs rest = climb least false lhs rest := by
  cases rest with
  | nil => rw [climb, climb]
  | cons op rest =>
      cases hs : strength? op with
      | none => rw [climb, climb, hs]
      | some s =>
          have hle := (h op rfl).2.2 s hs
          have hne : s ≠ 4 := by omega
          rw [climb, climb, hs]
          simp only [if_neg hne]

theorem primary_atom {token : Token} {e : Tree} (h : atom? token = some e) (rest : List Token) :
    primary (token :: rest) = trailers e rest := by
  rw [primary, h]

theorem primary_group {tokens rest : List Token} {e : Tree}
    (hread : read 1 (tokens ++ .symbol ")" :: rest) = some (e, .symbol ")" :: rest)) :
    primary (.symbol "(" :: (tokens ++ .symbol ")" :: rest)) = trailers e rest := by
  have hlength : (Token.symbol ")" :: rest).length ≤ (tokens ++ .symbol ")" :: rest).length := by
    simp
  rw [primary, if_pos rfl, hread]
  exact if_pos ⟨hlength, rfl⟩

theorem trailers_stop (e : Tree) {n : Nat} {rest : List Token} (h : Behind n rest) :
    trailers e rest = some (e, rest) := by
  cases rest with
  | nil => rw [trailers]
  | cons token rest =>
      obtain ⟨hpoint, hopen, _⟩ := h token rfl
      rw [trailers.eq_def]
      simp only [if_neg hpoint, if_neg hopen]

theorem trailers_member (e : Tree) {word : String} (h : isName word = true)
    (rest : List Token) :
    trailers e (.symbol "." :: .word word :: rest) = trailers (.member e word) rest := by
  rw [trailers, if_pos rfl]
  simp only [if_pos h]

theorem trailers_callEmpty (e : Tree) (rest : List Token) :
    trailers e (.symbol "(" :: .symbol ")" :: rest) = trailers (.call e []) rest := by
  rw [trailers.eq_def]
  rfl

theorem trailers_call (e : Tree) {right rest : List Token} {argument : Tree}
    (h : (right ++ rest).head? ≠ some (.symbol ")"))
    (hread : read 1 (right ++ rest) = some (argument, rest)) :
    trailers e (.symbol "(" :: (right ++ rest)) = arguments e [argument] rest := by
  have hlength : rest.length ≤ (right ++ rest).length := by simp
  rw [trailers.eq_def]
  simp only [if_neg (show Token.symbol "(" ≠ .symbol "." by decide), if_true, if_neg h, hread]
  exact if_pos hlength

theorem arguments_more (callee : Tree) (operands : List Tree) {right rest : List Token}
    {argument : Tree} (hread : read 1 (right ++ rest) = some (argument, rest)) :
    arguments callee operands (.symbol "," :: (right ++ rest)) =
      arguments callee (operands ++ [argument]) rest := by
  have hlength : rest.length ≤ (right ++ rest).length := by simp
  rw [arguments, if_pos rfl, hread]
  exact if_pos hlength

theorem arguments_done (callee : Tree) (operands : List Tree) (rest : List Token) :
    arguments callee operands (.symbol ")" :: rest) = trailers (.call callee operands) rest := by
  rw [arguments, if_neg (by decide), if_pos rfl]

theorem strength?_bounds {token : Token} {s : Nat} (h : strength? token = some s) :
    s ≤ 10 ∧ s ≠ 3 := by
  have hall : ∀ entry ∈ strengths, entry.2 ≤ 10 ∧ entry.2 ≠ 3 := by decide
  exact hall _ (Lexeme.mem_of_lookup h)

theorem Behind.mono {m n : Nat} {rest : List Token} (h : Behind m rest) (hle : m ≤ n) :
    Behind n rest := fun token htoken =>
  ⟨(h token htoken).1, (h token htoken).2.1, fun s hs => ((h token htoken).2.2 s hs).trans hle⟩

theorem behind_op {op : Token} {n : Nat} (h : strength? op = some n) (rest : List Token) :
    Behind n (op :: rest) := by
  intro token htoken
  cases htoken
  have hmem := Lexeme.mem_of_lookup h
  refine ⟨?_, ?_, ?_⟩
  · rintro rfl
    simp [strengths] at hmem
  · rintro rfl
    simp [strengths] at hmem
  · intro s hs
    rw [h] at hs
    exact (Option.some.inj hs).ge

/-- The strongest operator behind a level that leaves it as it is: a comparison goes on over
another one. -/
def bound (n : Nat) : Nat := if n = 4 then 3 else n

def ReadBack : NonTerminal → List Token → Tree → Prop
  | .level n, tokens, e => ∀ least rest, least ≤ n → Behind (bound n) rest →
      read least (tokens ++ rest) = climb least false e rest
  | .chain, tokens, e => ∀ least rest, least ≤ 4 → Behind 4 rest →
      read least (tokens ++ rest) = climb least true e rest
  | .primary, tokens, e => ∀ rest, primary (tokens ++ rest) = trailers e rest
  | .openCall, tokens, e => ∀ callee operands, e = .call callee operands →
      ∀ rest, Behind 0 rest → primary (tokens ++ rest) = arguments callee operands rest

/-- An operand is read whole by a reader of its own strength. -/
theorem ReadBack.whole {n : Nat} {tokens : List Token} {e : Tree}
    (h : ReadBack (.level n) tokens e) {m : Nat} {rest : List Token} (hrest : Behind m rest)
    (hm : m < n) : read n (tokens ++ rest) = some (e, rest) := by
  have hbound : m ≤ bound n := by
    unfold bound
    split <;> omega
  rw [h n rest (le_refl n) (hrest.mono hbound), climb_stop false e hrest hm]

theorem head_of_primary {form : NonTerminal} {tokens : List Token} {e : Tree}
    (h : Derives form tokens e) (hform : form = .primary ∨ form = .openCall) :
    ∃ first tail, tokens = first :: tail ∧ first ≠ .word "not" ∧ isSign first = false ∧
      first ≠ .symbol ")" := by
  induction h with
  | @atom token e hatom =>
      refine ⟨token, [], rfl, ?_, ?_, ?_⟩
      · rintro rfl
        simp [atom?, isName, keywords, constants] at hatom
      · cases token <;> simp_all [atom?, isSign]
      · rintro rfl
        simp [atom?] at hatom
  | group _ _ => exact ⟨_, _, rfl, by decide, by decide, by decide⟩
  | member _ _ ih | callEmpty _ ih | argument _ _ ih _ =>
      obtain ⟨first, tail, rfl, hfirst⟩ := ih (.inl rfl)
      exact ⟨first, _, rfl, hfirst⟩
  | argumentAgain _ _ ih _ | call _ ih =>
      obtain ⟨first, tail, rfl, hfirst⟩ := ih (.inr rfl)
      exact ⟨first, _, rfl, hfirst⟩
  | _ => simp at hform

theorem readBack_binary {n : Nat} {op : Token} {left right : List Token} {lhs rhs : Tree}
    (hop : strength? op = some n) (hn : n ≠ 4) (ihl : ReadBack (.level n) left lhs)
    (ihr : ReadBack (.level (n + 1)) right rhs) :
    ReadBack (.level n) (left ++ op :: right) (.binary op.text lhs rhs) := by
  intro least rest hleast hrest
  have hbound : bound n = n := if_neg hn
  have hbehind : Behind (bound n) (op :: (right ++ rest)) := by
    rw [hbound]
    exact behind_op hop _
  rw [hbound] at hrest
  have hread := ihr.whole hrest (Nat.lt_succ_self n)
  rw [List.append_assoc, List.cons_append, ihl least _ hleast hbehind]
  exact climb_binary false lhs hop hn hleast hread

theorem readBack_compare {op : Token} {left right : List Token} {lhs rhs : Tree}
    (hop : strength? op = some 4) (ihl : ReadBack (.level 5) left lhs)
    (ihr : ReadBack (.level 5) right rhs) :
    ReadBack .chain (left ++ op :: right) (.comparison lhs [(op.text, rhs)]) := by
  intro least rest hleast hrest
  have hbehind : Behind (bound 5) (op :: (right ++ rest)) := (behind_op hop _).mono (by decide)
  rw [List.append_assoc, List.cons_append, ihl least _ (Nat.le_succ_of_le hleast) hbehind]
  exact climb_compare false lhs hop hleast (ihr.whole hrest (by decide))

theorem readBack_compareAgain {op : Token} {left right : List Token} {first rhs : Tree}
    {others : List (String × Tree)} (hop : strength? op = some 4)
    (ihl : ReadBack .chain left (.comparison first others))
    (ihr : ReadBack (.level 5) right rhs) :
    ReadBack .chain (left ++ op :: right) (.comparison first (others ++ [(op.text, rhs)])) := by
  intro least rest hleast hrest
  rw [List.append_assoc, List.cons_append, ihl least _ hleast (behind_op hop _)]
  exact climb_compare true _ hop hleast (ihr.whole hrest (by decide))

theorem readBack_negation {tokens : List Token} {e : Tree} (ih : ReadBack (.level 3) tokens e) :
    ReadBack (.level 3) (.word "not" :: tokens) (.negation e) := by
  intro least rest hleast hrest
  have hread : read 3 (tokens ++ rest) = some (e, rest) := by
    refine ih.whole (m := 2) ?_ (by decide)
    intro token htoken
    obtain ⟨hpoint, hopen, hstrength⟩ := hrest token htoken
    refine ⟨hpoint, hopen, fun s hs => ?_⟩
    have hle : s ≤ 3 := hstrength s hs
    have hne := (strength?_bounds hs).2
    omega
  have hoperand : operand least (.word "not" :: tokens ++ rest) = some (.negation e, rest) := by
    rw [List.cons_append, operand_not hleast, hread]
    rfl
  exact read_of_operand hoperand

theorem readBack_sign {op : Token} {tokens : List Token} {e : Tree} (hop : isSign op = true)
    (ih : ReadBack (.level 11) tokens e) :
    ReadBack (.level 11) (op :: tokens) (.sign op.text e) := by
  intro least rest _ hrest
  have hread : read 11 (tokens ++ rest) = some (e, rest) := by
    refine ih.whole (m := 10) ?_ (by decide)
    intro token htoken
    obtain ⟨hpoint, hopen, _⟩ := hrest token htoken
    exact ⟨hpoint, hopen, fun s hs => (strength?_bounds hs).1⟩
  have hoperand : operand least (op :: tokens ++ rest) = some (.sign op.text e, rest) := by
    rw [List.cons_append, operand_sign least hop, hread]
    rfl
  exact read_of_operand hoperand

theorem readBack_primary {tokens : List Token} {e : Tree} (h : Derives .primary tokens e)
    (ih : ReadBack .primary tokens e) : ReadBack (.level 11) tokens e := by
  intro least rest _ hrest
  obtain ⟨first, tail, rfl, hnot, hsign, _⟩ := head_of_primary h (.inl rfl)
  have hoperand : operand least (first :: tail ++ rest) = some (e, rest) := by
    rw [List.cons_append, operand_primary least _ hnot hsign, ← List.cons_append, ih rest,
      trailers_stop e hrest]
  exact read_of_operand hoperand

theorem behind_symbol {text : String} (hstrength : strength? (.symbol text) = none)
    (hpoint : text ≠ ".") (hopen : text ≠ "(") (n : Nat) (rest : List Token) :
    Behind n (.symbol text :: rest) := by
  intro token htoken
  cases htoken
  refine ⟨by simpa using hpoint, by simpa using hopen, fun s hs => ?_⟩
  rw [hstrength] at hs
  cases hs

theorem behind_close (n : Nat) (rest : List Token) : Behind n (.symbol ")" :: rest) :=
  behind_symbol (by decide) (by decide) (by decide) n rest

theorem behind_comma (n : Nat) (rest : List Token) : Behind n (.symbol "," :: rest) :=
  behind_symbol (by decide) (by decide) (by decide) n rest

/-- No expression begins with a token that begins no operand. -/
theorem read_stuck {token : Token} (hnot : token ≠ .word "not") (hsign : isSign token = false)
    (hatom : atom? token = none) (hopen : token ≠ .symbol "(") (least : Nat) (rest : List Token) :
    read least (token :: rest) = none := by
  have hprimary : primary (token :: rest) = none := by
    rw [primary, hatom]
    exact if_neg hopen
  rw [read, operand_primary least rest hnot hsign, hprimary]
  rfl

theorem read_close (least : Nat) (rest : List Token) : read least (.symbol ")" :: rest) = none :=
  read_stuck (by decide) (by decide) rfl (by decide) least rest

theorem readBack_group {tokens : List Token} {e : Tree} (ih : ReadBack (.level 1) tokens e) :
    ReadBack .primary (.symbol "(" :: (tokens ++ [.symbol ")"])) e := by
  intro rest
  rw [List.cons_append, List.append_assoc, List.cons_append, List.nil_append]
  exact primary_group (ih.whole (behind_close 0 rest) (by decide))

theorem readBack_argument {tokens right : List Token} {callee e : Tree}
    (ihl : ReadBack .primary tokens callee) (ihr : ReadBack (.level 1) right e) :
    ReadBack .openCall (tokens ++ .symbol "(" :: right) (.call callee [e]) := by
  intro callee' operands heq rest hrest
  cases heq
  have hread := ihr.whole hrest (by decide)
  have hhead : (right ++ rest).head? ≠ some (.symbol ")") := by
    intro hclose
    obtain ⟨tail, htail⟩ := List.head?_eq_some_iff.mp hclose
    rw [htail, read_close] at hread
    cases hread
  rw [List.append_assoc, List.cons_append, ihl]
  exact trailers_call callee hhead hread

theorem readBack_argumentAgain {left right : List Token} {callee e : Tree}
    {operands : List Tree} (ihl : ReadBack .openCall left (.call callee operands))
    (ihr : ReadBack (.level 1) right e) :
    ReadBack .openCall (left ++ .symbol "," :: right) (.call callee (operands ++ [e])) := by
  intro callee' operands' heq rest hrest
  cases heq
  rw [List.append_assoc, List.cons_append, ihl callee operands rfl _ (behind_comma 0 _)]
  exact arguments_more callee operands (ihr.whole hrest (by decide))

theorem exists_call {tokens : List Token} {e : Tree} (h : Derives .openCall tokens e) :
    ∃ callee operands, e = .call callee operands := by
  cases h with
  | argument _ _ => exact ⟨_, _, rfl⟩
  | argumentAgain _ _ => exact ⟨_, _, rfl⟩

theorem Derives.readBack {form : NonTerminal} {tokens : List Token} {e : Tree}
    (h : Derives form tokens e) : ReadBack form tokens e := by
  induction h with
  | @tighter n tokens e _ ih =>
      intro least rest hleast hrest
      refine ih least rest (Nat.le_succ_of_le hleast) (hrest.mono ?_)
      unfold bound
      split <;> split <;> omega
  | binary hop hn _ _ ihl ihr => exact readBack_binary hop hn ihl ihr
  | negation _ ih => exact readBack_negation ih
  | compare hop _ _ ihl ihr => exact readBack_compare hop ihl ihr
  | compareAgain hop _ _ ihl ihr => exact readBack_compareAgain hop ihl ihr
  | chain _ ih =>
      intro least rest hleast hrest
      rw [ih least rest hleast (hrest.mono (by decide)), climb_chained least _ hrest]
  | sign hop _ ih => exact readBack_sign hop ih
  | primary h ih => exact readBack_primary h ih
  | atom hatom => exact primary_atom hatom
  | group _ ih => exact readBack_group ih
  | member _ hword ih =>
      intro rest
      rw [List.append_assoc, ih]
      exact trailers_member _ hword rest
  | callEmpty _ ih =>
      intro rest
      rw [List.append_assoc, ih]
      exact trailers_callEmpty _ rest
  | argument _ _ ihl ihr => exact readBack_argument ihl ihr
  | argumentAgain _ _ ihl ihr => exact readBack_argumentAgain ihl ihr
  | call h ih =>
      intro rest
      obtain ⟨callee, operands, rfl⟩ := exists_call h
      rw [List.append_assoc, List.cons_append, List.nil_append,
        ih callee operands rfl _ (behind_close 0 rest)]
      exact arguments_done callee operands rest

theorem Derives.read_eq {tokens : List Token} {e : Tree} (h : Derives (.level 1) tokens e) :
    read 1 tokens = some (e, []) := by
  have hend : Behind 0 [] := by simp [Behind]
  have hread := ReadBack.whole h.readBack hend (by decide)
  rwa [List.append_nil] at hread

/-- No expression begins with a keyword that is no operand. -/
theorem not_reads_keyword (word : String) (rest : List Char) (hword : isIdentifier word = true)
    (hrest : EndsWord rest) (hnot : Token.word word ≠ .word "not")
    (hatom : atom? (.word word) = none) (tree : Tree) :
    ¬ Reads (String.ofList (word.toList ++ rest)) tree := by
  rintro ⟨tokens, htokens, hderives⟩
  rw [String.toList_ofList, tokens?_word hword hrest] at htokens
  obtain ⟨more, -, rfl⟩ := Option.map_eq_some_iff.mp htokens
  have hread := read_stuck hnot rfl hatom nofun 1 more
  cases hread.symm.trans hderives.read_eq

/-- Tokens have at most one reading. -/
theorem Derives.unique {tokens : List Token} {e other : Tree} (h : Derives (.level 1) tokens e)
    (hother : Derives (.level 1) tokens other) : e = other := by
  have hread := h.read_eq
  rw [hother.read_eq] at hread
  exact (Prod.mk.inj (Option.some.inj hread)).1.symm

/-- A text has at most one reading. -/
theorem Reads.unique {text : String} {e other : Tree} (h : Reads text e)
    (hother : Reads text other) : e = other := by
  obtain ⟨tokens, htokens, hderives⟩ := h
  obtain ⟨tokens', htokens', hderives'⟩ := hother
  rw [htokens] at htokens'
  cases htokens'
  exact hderives.unique hderives'

end MiniJava.Python
