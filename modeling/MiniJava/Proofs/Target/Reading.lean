import MiniJava.Proofs.Python.Unambiguous
import MiniJava.Target.Expr

/-!
# Emitted expressions as Python reads them

An expression is written as the text of its tokens, and its tokens group as the expression does,
because an operand that would be regrouped stands in parentheses.
-/

namespace MiniJava.Target

open Text Lexeme Python

def Operator.token : Operator → Python.Token
  | or => .word "or"
  | and => .word "and"
  | op => .symbol op.symbol

/-- Two operands under an operator, as Python groups them. -/
def Operator.tree (op : Operator) (lhs rhs : Tree) : Tree :=
  if op.precedence = 4 then .comparison lhs [(op.symbol, rhs)] else .binary op.symbol lhs rhs

theorem Operator.text_token (op : Operator) : op.token.text = op.symbol := by cases op <;> rfl

theorem Operator.strength?_token (op : Operator) : strength? op.token = some op.precedence := by
  cases op <;> decide

theorem Operator.precedence_bounds (op : Operator) : 1 ≤ op.precedence ∧ op.precedence ≤ 10 := by
  cases op <;> decide

theorem Sign.isSign_token (sign : Sign) : isSign (.symbol sign.symbol) = true := by
  cases sign <;> decide

namespace Expr

def encloseTokens (parent : Nat) (onRight : Bool) (own : Nat) (tokens : List Python.Token) :
    List Python.Token :=
  if needsParens parent onRight own then .symbol "(" :: (tokens ++ [.symbol ")"]) else tokens

/-- The tokens of the text. -/
def tokens : Expr → List Python.Token
  | number text => [.number text]
  | string text => [.string ("\"" ++ text ++ "\"")]
  | char text => [.string ("'" ++ text ++ "'")]
  | bool true => [.word "True"]
  | bool false => [.word "False"]
  | noneValue => [.word "None"]
  | name text => [.word text]
  | member holder text => [.word holder, .symbol ".", .word text]
  | str argument => .word "str" :: .symbol "(" :: (argument.tokens ++ [.symbol ")"])
  | negation operand => .word "not" :: encloseTokens 3 false operand.precedence operand.tokens
  | signed sign operand =>
    .symbol sign.symbol :: encloseTokens 11 false operand.precedence operand.tokens
  | binary op lhs rhs =>
    encloseTokens op.precedence false lhs.precedence lhs.tokens ++
      op.token :: encloseTokens op.precedence true rhs.precedence rhs.tokens

/-- What the expression groups as. -/
def tree : Expr → Tree
  | number text => .number text
  | string text => .string ("\"" ++ text ++ "\"")
  | char text => .string ("'" ++ text ++ "'")
  | bool true => .constant "True"
  | bool false => .constant "False"
  | noneValue => .constant "None"
  | name text => .name text
  | member holder text => .member (.name holder) text
  | str argument => .call (.name "str") [argument.tree]
  | negation operand => .negation operand.tree
  | signed sign operand => .sign sign.symbol operand.tree
  | binary op lhs rhs => op.tree lhs.tree rhs.tree

/-- Names are names of Python, numbers are decimal, and quoted texts end at their quotes. -/
def Spelled : Expr → Prop
  | number text => isDecimal text.toList = true
  | string text => Quotable '"' text.toList ∧ IsPlain text.toList
  | char text => Quotable '\'' text.toList ∧ IsPlain text.toList
  | bool _ | noneValue => True
  | name text => isName text = true
  | member holder text => isName holder = true ∧ isName text = true
  | str operand | negation operand | signed _ operand => operand.Spelled
  | binary _ lhs rhs => lhs.Spelled ∧ rhs.Spelled

/-- An expression is an operand of its own strength. -/
def form (e : Expr) : NonTerminal := if e.precedence = 12 then .primary else .level e.precedence

theorem level_of_form {e : Expr} (h : Derives e.form e.tokens e.tree) {n : Nat} (hn : n ≤ 11)
    (hle : n ≤ e.precedence) : Derives (.level n) e.tokens e.tree := by
  unfold form at h
  split at h
  · exact Derives.loosen h.primary hn
  · exact Derives.loosen h hle

theorem derives_enclosed {e : Expr} (h : Derives e.form e.tokens e.tree) {parent n : Nat}
    {onRight : Bool} (hn : n ≤ 11) (hpos : 1 ≤ e.precedence)
    (hlevel : needsParens parent onRight e.precedence = false → n ≤ e.precedence) :
    Derives (.level n) (encloseTokens parent onRight e.precedence e.tokens) e.tree := by
  unfold encloseTokens
  split
  · have hgroup := Derives.group (level_of_form h (by decide) hpos)
    exact hgroup.primary.loosen hn
  · next hnone => exact level_of_form h hn (hlevel (by simpa using hnone))

theorem precedence_pos (e : Expr) : 1 ≤ e.precedence := by
  cases e with
  | binary op lhs rhs => exact op.precedence_bounds.1
  | _ => exact Nat.le_of_ble_eq_true rfl

theorem needsParens_eq_false {parent own : Nat} {onRight : Bool}
    (h : needsParens parent onRight own = false) :
    parent ≤ own ∧ (onRight = true → parent < own) ∧ (parent = 4 → own ≠ 4) := by
  simp only [needsParens, Bool.or_eq_false_iff, Bool.and_eq_false_iff,
    decide_eq_false_iff_not] at h
  refine ⟨by omega, fun hright => ?_, by omega⟩
  simp only [hright, Bool.true_eq_false, false_or] at h
  omega

/-- A comparison needs stronger operands on both sides, any other operator on the right. -/
theorem derives_binary (op : Operator) {lhs rhs : Expr} (hl : Derives lhs.form lhs.tokens lhs.tree)
    (hr : Derives rhs.form rhs.tokens rhs.tree) :
    Derives (.level op.precedence) (binary op lhs rhs).tokens (binary op lhs rhs).tree := by
  have hop := op.strength?_token
  have hmost := op.precedence_bounds.2
  rw [tree, Operator.tree, tokens, ← op.text_token]
  split
  · next hfour =>
      rw [hfour] at hop ⊢
      refine (Derives.compare hop ?_ ?_).chain
      · refine derives_enclosed hl (by decide) lhs.precedence_pos fun hnone => ?_
        obtain ⟨hle, _, hne⟩ := needsParens_eq_false hnone
        have hown := hne rfl
        omega
      · refine derives_enclosed hr (by decide) rhs.precedence_pos fun hnone => ?_
        exact (needsParens_eq_false hnone).2.1 rfl
  · next hfour =>
      refine Derives.binary hop hfour ?_ ?_
      · refine derives_enclosed hl (by omega) lhs.precedence_pos fun hnone => ?_
        exact (needsParens_eq_false hnone).1
      · refine derives_enclosed hr (by omega) rhs.precedence_pos fun hnone => ?_
        exact (needsParens_eq_false hnone).2.1 rfl

theorem derives_tokens (e : Expr) (h : e.Spelled) : Derives e.form e.tokens e.tree := by
  induction e with
  | number text => exact .atom rfl
  | string text => exact .atom rfl
  | char text => exact .atom rfl
  | bool value =>
      cases value
      · exact .atom (atom?_constant (by decide))
      · exact .atom (atom?_constant (by decide))
  | noneValue => exact .atom (atom?_constant (by decide))
  | name text => exact .atom (atom?_name h)
  | member holder text => exact Derives.member (.atom (atom?_name h.1)) h.2
  | str argument ih =>
      have hcallee : Derives .primary [.word "str"] (.name "str") :=
        .atom (atom?_name (by decide))
      have hargument := level_of_form (ih h) (by decide) argument.precedence_pos
      exact (hcallee.argument hargument).call
  | negation operand ih =>
      exact Derives.negation (derives_enclosed (ih h) (by decide) operand.precedence_pos
        fun hnone => (needsParens_eq_false hnone).1)
  | signed sign operand ih =>
      have hoperand : Derives (.level 11)
          (encloseTokens 11 false operand.precedence operand.tokens) operand.tree :=
        derives_enclosed (ih h) (le_refl 11) operand.precedence_pos
          fun hnone => (needsParens_eq_false hnone).1
      exact Derives.sign sign.isSign_token hoperand
  | binary op lhs rhs ihl ihr =>
      have hform : (binary op lhs rhs).form = .level op.precedence := by cases op <;> rfl
      rw [hform]
      exact derives_binary op (ihl h.1) (ihr h.2)

def Delimited (rest : List Char) : Prop := ∀ c ∈ rest.head?, c ∈ [' ', ')', ',', ':']

def SplitsInto (text : String) (tokens : List Python.Token) : Prop :=
  ∀ rest, Delimited rest → tokens? (text.toList ++ rest) = (tokens? rest).map (tokens ++ ·)

theorem Delimited.of_head {P : Char → Prop} [DecidablePred P] {rest : List Char}
    (h : Delimited rest) (hP : [' ', ')', ',', ':'].all (fun c => decide (P c)) = true) :
    ∀ c ∈ rest.head?, P c :=
  fun c hc => of_decide_eq_true (List.all_eq_true.mp hP c (h c hc))

theorem Delimited.endsWord {rest : List Char} (h : Delimited rest) : EndsWord rest :=
  h.of_head (by decide)

theorem Delimited.endsNumber {rest : List Char} (h : Delimited rest) : EndsNumber rest :=
  h.of_head (by decide)

theorem delimited_cons {c : Char} (hc : c ∈ [' ', ')', ',', ':']) (rest : List Char) :
    Delimited (c :: rest) := by
  intro d hd
  cases hd
  exact hc

theorem delimited_blank (rest : List Char) : Delimited (' ' :: rest) := delimited_cons (by decide) _

theorem delimited_close (rest : List Char) : Delimited (')' :: rest) := delimited_cons (by decide) _

theorem splitsInto_quoted {quote : Char} {text : String} (hquote : quote = '"' ∨ quote = '\'')
    (h : Quotable quote text.toList) (hplain : IsPlain text.toList) :
    SplitsInto (String.ofList [quote] ++ text ++ String.ofList [quote])
      [.string (String.ofList [quote] ++ text ++ String.ofList [quote])] := by
  intro rest hrest
  have htext : String.ofList [quote] ++ text ++ String.ofList [quote] =
      String.ofList (quote :: (text.toList ++ [quote])) := by
    apply String.toList_inj.mp
    simp
  rw [htext, String.toList_ofList]
  refine tokens?_string h hplain hquote (hrest.of_head ?_)
  rcases hquote with rfl | rfl <;> decide

theorem isIdentifier_of_isName {text : String} (h : isName text = true) :
    isIdentifier text = true := (Bool.and_eq_true_iff.mp h).1

theorem splitsInto_word {text : String} (h : isIdentifier text = true) :
    SplitsInto text [.word text] := fun _ hrest => tokens?_word h hrest.endsWord

theorem splitsInto_enclose {text : String} {tokens : List Python.Token} (h : SplitsInto text tokens)
    (parent : Nat) (onRight : Bool) (own : Nat) :
    SplitsInto (enclose parent onRight own text) (encloseTokens parent onRight own tokens) := by
  unfold enclose encloseTokens
  split
  · intro rest hrest
    have hinner := h _ (delimited_close rest)
    simp [tokens?_open, hinner, tokens?_close, Function.comp_def]
  · exact h

theorem tokens?_operator (op : Operator) (rest : List Char) :
    tokens? (op.symbol.toList ++ ' ' :: rest) = (tokens? rest).map (op.token :: ·) := by
  have hsymbol : op = .or ∨ op = .and ∨ (op.token = .symbol op.symbol ∧ op.symbol ∈ Python.symbols ∧
      op.symbol.toList.length ≤ 2 ∧ op.symbol.toList.head? ≠ some '.') := by
    cases op <;> decide
  have hends : EndsWord (' ' :: rest) := (delimited_blank rest).endsWord
  rcases hsymbol with rfl | rfl | ⟨htoken, hmem, hlength, hpoint⟩
  · have hword := @tokens?_word "or" _ (by decide) hends
    rwa [tokens?_blank] at hword
  · have hword := @tokens?_word "and" _ (by decide) hends
    rwa [tokens?_blank] at hword
  · rw [htoken]
    exact tokens?_spaced hmem hlength hpoint rest

def BeginsOperand (text : String) : Prop :=
  ∃ c tail, text.toList = c :: tail ∧ continuesSymbol c = false

/-- What stands in a word goes on with no symbol. -/
theorem not_continuesSymbol_of_part {c : Char} (h : isIdentifierPart c = true) :
    continuesSymbol c = false := by
  by_contra hcontinues
  simp only [continuesSymbol, Bool.not_eq_false, List.contains_iff_mem, List.mem_cons,
    List.not_mem_nil, or_false] at hcontinues
  rcases hcontinues with rfl | rfl | rfl | rfl | rfl | rfl <;> exact absurd h (by decide)

theorem beginsOperand_of_identifier {text : String} (h : isIdentifier text = true)
    (more : String) : BeginsOperand (text ++ more) := by
  unfold isIdentifier at h
  split at h
  · cases h
  · next c body htext =>
      rw [Bool.and_eq_true] at h
      have hpart : isIdentifierPart c = true := by simp [isIdentifierPart, h.1]
      exact ⟨c, body ++ more.toList, by simp [htext], not_continuesSymbol_of_part hpart⟩

theorem beginsOperand_enclose {text : String} (h : BeginsOperand text) (parent : Nat)
    (onRight : Bool) (own : Nat) (more : String) :
    BeginsOperand (enclose parent onRight own text ++ more) := by
  unfold enclose
  split
  · exact ⟨'(', text.toList ++ ')' :: more.toList, by simp, by decide⟩
  · obtain ⟨c, tail, htext, hc⟩ := h
    exact ⟨c, tail ++ more.toList, by simp [htext], hc⟩

theorem beginsOperand_number {text : String} (h : isDecimal text.toList = true) :
    BeginsOperand text := by
  cases htext : text.toList with
  | nil => simp [htext, isDecimal] at h
  | cons c body =>
      have hdigit : isAsciiDigit c = true := by
        by_contra hnot
        simp [htext, isDecimal, hnot] at h
      have hpart : isIdentifierPart c = true := by simp [isIdentifierPart, hdigit]
      exact ⟨c, body, htext, not_continuesSymbol_of_part hpart⟩

theorem beginsOperand_toText (e : Expr) (h : e.Spelled) : BeginsOperand e.toText := by
  induction e with
  | number text => exact beginsOperand_number h
  | string text => exact ⟨'"', text.toList ++ ['"'], by simp [toText], by decide⟩
  | char text => exact ⟨'\'', text.toList ++ ['\''], by simp [toText], by decide⟩
  | bool value =>
      cases value
      · exact ⟨'F', "alse".toList, rfl, by decide⟩
      · exact ⟨'T', "rue".toList, rfl, by decide⟩
  | noneValue => exact ⟨'N', "one".toList, rfl, by decide⟩
  | name text =>
      have hbegins := beginsOperand_of_identifier (isIdentifier_of_isName h) ""
      rwa [String.append_empty] at hbegins
  | member holder text =>
      rw [toText, String.append_assoc]
      exact beginsOperand_of_identifier (isIdentifier_of_isName h.1) _
  | str argument _ => exact ⟨'s', _, by simp [toText]; rfl, by decide⟩
  | negation operand _ => exact ⟨'n', _, by simp [toText]; rfl, by decide⟩
  | signed sign operand _ =>
      cases sign
      · exact ⟨'-', _, by simp [toText, Sign.symbol]; rfl, by decide⟩
      · exact ⟨'+', _, by simp [toText, Sign.symbol]; rfl, by decide⟩
      · exact ⟨'~', _, by simp [toText, Sign.symbol]; rfl, by decide⟩
  | binary op lhs rhs ihl _ =>
      rw [toText, String.append_assoc, String.append_assoc, String.append_assoc]
      exact beginsOperand_enclose (ihl h.1) _ _ _ _

theorem splitsInto_member {holder text : String} (hholder : isName holder = true)
    (htext : isName text = true) :
    SplitsInto (holder ++ "." ++ text) [.word holder, .symbol ".", .word text] := by
  intro rest hrest
  have hidentifier := isIdentifier_of_isName htext
  have hword := tokens?_word hidentifier hrest.endsWord
  have hpoint : tokens? ('.' :: (text.toList ++ rest)) =
      (tokens? (text.toList ++ rest)).map (.symbol "." :: ·) := by
    unfold isIdentifier at hidentifier
    split at hidentifier
    · cases hidentifier
    · next c body hchars =>
        rw [hchars]
        exact tokens?_point _ (Bool.and_eq_true_iff.mp hidentifier).1
  have hends : EndsWord ('.' :: (text.toList ++ rest)) := by
    intro c hc
    cases hc
    decide
  have hfirst := tokens?_word (isIdentifier_of_isName hholder) hends
  rw [hpoint, hword] at hfirst
  simpa [Function.comp_def] using hfirst

theorem splitsInto_signed (sign : Sign) {text : String} {tokens : List Python.Token}
    (h : SplitsInto text tokens) (hbegins : BeginsOperand text) :
    SplitsInto (sign.symbol ++ text) (.symbol sign.symbol :: tokens) := by
  intro rest hrest
  obtain ⟨first, tail, htext, hfirst⟩ := hbegins
  have hsign : tokens? (sign.symbol.toList ++ (text.toList ++ rest)) =
      (tokens? (text.toList ++ rest)).map (.symbol sign.symbol :: ·) := by
    have hhead : ∀ d ∈ (text.toList ++ rest).head?, continuesSymbol d = false := by
      rw [htext]
      intro d hd
      cases hd
      exact hfirst
    cases sign with
    | minus => exact @tokens?_single '-' _ (by decide) (by decide) hhead
    | plus => exact @tokens?_single '+' _ (by decide) (by decide) hhead
    | invert => exact @tokens?_single '~' _ (by decide) (by decide) hhead
  rw [String.toList_append, List.append_assoc, hsign, h rest hrest, Option.map_map]
  rfl

theorem splitsInto_str {text : String} {tokens : List Python.Token} (h : SplitsInto text tokens) :
    SplitsInto ("str(" ++ text ++ ")")
      (.word "str" :: .symbol "(" :: (tokens ++ [.symbol ")"])) := by
  intro rest _
  have hends : EndsWord ('(' :: (text.toList ++ ')' :: rest)) := by
    intro c hc
    cases hc
    decide
  have hword := @tokens?_word "str" _ (by decide) hends
  rw [tokens?_open, h _ (delimited_close rest), tokens?_close] at hword
  simpa [Function.comp_def] using hword

theorem splitsInto_negation {text : String} {tokens : List Python.Token}
    (h : SplitsInto text tokens) : SplitsInto ("not " ++ text) (.word "not" :: tokens) := by
  intro rest hrest
  have hends : EndsWord (' ' :: (text.toList ++ rest)) := (delimited_blank _).endsWord
  have hword := @tokens?_word "not" _ (by decide) hends
  rw [tokens?_blank, h rest hrest] at hword
  simpa [Function.comp_def] using hword

theorem splitsInto_binary (op : Operator) {left right : String}
    {ltokens rtokens : List Python.Token} (hl : SplitsInto left ltokens)
    (hr : SplitsInto right rtokens) :
    SplitsInto (left ++ " " ++ op.symbol ++ " " ++ right) (ltokens ++ op.token :: rtokens) := by
  intro rest hrest
  have hop := tokens?_operator op (right.toList ++ rest)
  have hleft := hl _ (delimited_blank (op.symbol.toList ++ ' ' :: (right.toList ++ rest)))
  rw [tokens?_blank, hop, hr rest hrest] at hleft
  simpa [Function.comp_def] using hleft

theorem splitsInto_toText (e : Expr) (h : e.Spelled) : SplitsInto e.toText e.tokens := by
  induction e with
  | number text => exact fun _ hrest => tokens?_number h hrest.endsNumber
  | string text => exact splitsInto_quoted (.inl rfl) h.1 h.2
  | char text => exact splitsInto_quoted (.inr rfl) h.1 h.2
  | bool value =>
      cases value
      · exact splitsInto_word (by decide)
      · exact splitsInto_word (by decide)
  | noneValue => exact splitsInto_word (by decide)
  | name text => exact splitsInto_word (isIdentifier_of_isName h)
  | member holder text => exact splitsInto_member h.1 h.2
  | str argument ih => exact splitsInto_str (ih h)
  | negation operand ih => exact splitsInto_negation (splitsInto_enclose (ih h) _ _ _)
  | signed sign operand ih =>
      have hbegins := beginsOperand_enclose (beginsOperand_toText operand h) 11 false
        operand.precedence ""
      rw [String.append_empty] at hbegins
      exact splitsInto_signed sign (splitsInto_enclose (ih h) _ _ _) hbegins
  | binary op lhs rhs ihl ihr =>
      exact splitsInto_binary op (splitsInto_enclose (ihl h.1) _ _ _)
        (splitsInto_enclose (ihr h.2) _ _ _)

/-- Python reads an emitted expression as it is grouped, and in no other way. -/
theorem reads_toText_iff (e : Expr) (h : e.Spelled) (other : Tree) :
    Reads e.toText other ↔ other = e.tree := by
  have hreads : Reads e.toText e.tree := by
    refine ⟨e.tokens, ?_, level_of_form (derives_tokens e h) (by decide) e.precedence_pos⟩
    have hsplit := splitsInto_toText e h [] (by simp [Delimited])
    rwa [List.append_nil, tokens?_nil, Option.map_some, List.append_nil] at hsplit
  constructor
  · exact fun hother => hother.unique hreads
  · rintro rfl
    exact hreads

end Expr

end MiniJava.Target
