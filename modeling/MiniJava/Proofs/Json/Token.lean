import MiniJava.Json.Layout
import MiniJava.Proofs.Text.Integer

/-!
# Tokens of JSON text

How a JSON text is split: marks, words, counts and quoted texts, with any blanks between them. In a
quoted text a backslash begins an escape, two escapes may be needed for one character, and control
characters are not allowed. Numbers other than counts are not read, because no value holds one. The
text of a value is split into the tokens of the value, at every level of nesting.
-/

namespace MiniJava.Json

open Text

inductive Token where
  | mark (c : Char)
  | word (text : String)
  | count (value : Nat)
  | text (value : String)
deriving DecidableEq, Repr

def escapes : List (Char × Char) :=
  [('"', '"'), ('\\', '\\'), ('/', '/'), ('b', '\x08'), ('f', '\x0c'), ('n', '\n'), ('r', '\r'),
    ('t', '\t')]

def hexDigits : List (Char × Nat) :=
  "0123456789abcdef".toList.zipIdx ++ ("ABCDEF".toList.zipIdx 10)

def unit? (a b c d : Char) : Option Nat :=
  return 4096 * (← hexDigits.lookup a) + 256 * (← hexDigits.lookup b) +
    16 * (← hexDigits.lookup c) + (← hexDigits.lookup d)

/-- The character that the second half of a pair stands for. -/
def paired? (high low : Nat) : Option Char :=
  if 0xdc00 ≤ low && low < 0xe000 then
    some (Char.ofNat (0x10000 + 0x400 * (high - 0xd800) + (low - 0xdc00)))
  else none

def escaped? : List Char → Option (Char × Nat)
  | 'u' :: a :: b :: c :: d :: rest => do
    let unit ← unit? a b c d
    if unit < 0xd800 || 0xe000 ≤ unit then some (Char.ofNat unit, 5)
    else if unit < 0xdc00 then
      match rest with
      | '\\' :: 'u' :: a :: b :: c :: d :: _ => return (← paired? unit (← unit? a b c d), 11)
      | _ => none
    else none
  | c :: _ => (escapes.lookup c).map (·, 1)
  | [] => none

/-- A text up to its closing quote, and how many characters it is written with, the quote
included. -/
def quotedText? : List Char → Option (List Char × Nat)
  | [] => none
  | c :: rest =>
    if c = '"' then some ([], 1)
    else if c = '\\' then do
      let (first, n) ← escaped? rest
      let (text, m) ← quotedText? (rest.drop n)
      return (first :: text, m + n + 1)
    else if c.toNat < 32 then none
    else (quotedText? rest).map fun found => (c :: found.1, found.2 + 1)
termination_by text => text.length
decreasing_by
  all_goals
    simp only [List.length_drop, List.length_cons]
    omega

/-- A character is written as an escape of one letter, as four hexadecimal digits, or as it is. -/
theorem escape_cases (c : Char) :
    (∃ letter, escape c = ['\\', letter] ∧ letter ≠ 'u' ∧ escapes.lookup letter = some c) ∨
      (c.toNat < 32 ∧ escape c =
        ['\\', 'u', '0', '0', hexDigit (c.toNat / 16), hexDigit (c.toNat % 16)]) ∨
      (¬ c.toNat < 32 ∧ c ≠ '"' ∧ c ≠ '\\' ∧ escape c = [c]) := by
  unfold escape
  split
  · next h => exact .inl ⟨'"', rfl, by decide, by rw [h]; decide⟩
  split
  · next h => exact .inl ⟨'\\', rfl, by decide, by rw [h]; decide⟩
  split
  · next h => exact .inl ⟨'n', rfl, by decide, by rw [h]; decide⟩
  split
  · next h => exact .inl ⟨'r', rfl, by decide, by rw [h]; decide⟩
  split
  · next h => exact .inl ⟨'t', rfl, by decide, by rw [h]; decide⟩
  split
  · next h => exact .inl ⟨'b', rfl, by decide, by rw [h]; decide⟩
  split
  · next h => exact .inl ⟨'f', rfl, by decide, by rw [h]; decide⟩
  split
  · next h => exact .inr (.inl ⟨h, rfl⟩)
  · next hquote hbackslash _ _ _ _ _ h => exact .inr (.inr ⟨h, hquote, hbackslash, rfl⟩)

theorem escaped?_letter {letter c : Char} (hletter : letter ≠ 'u')
    (h : escapes.lookup letter = some c) (rest : List Char) :
    escaped? (letter :: rest) = some (c, 1) := by
  unfold escaped?
  split
  · next heq => exact absurd (List.cons.inj heq).1 hletter
  · next heq =>
      obtain ⟨rfl, -⟩ := List.cons.inj heq
      rw [h]
      rfl
  · next heq => cases heq

theorem unit?_hexDigit : ∀ n < 32, unit? '0' '0' (hexDigit (n / 16)) (hexDigit (n % 16)) = some n := by
  decide

theorem escaped?_control {c : Char} (h : c.toNat < 32) (rest : List Char) :
    escaped? ('u' :: '0' :: '0' :: hexDigit (c.toNat / 16) :: hexDigit (c.toNat % 16) :: rest) =
      some (c, 5) := by
  have hlow : c.toNat < 0xd800 := by omega
  simp [escaped?, unit?_hexDigit c.toNat h, hlow]

theorem quotedText?_escaped {body rest : List Char} {c : Char}
    (h : escaped? (body ++ rest) = some (c, body.length)) :
    quotedText? ('\\' :: (body ++ rest)) =
      (quotedText? rest).map fun found => (c :: found.1, found.2 + (body.length + 1)) := by
  rw [quotedText?, if_neg (by decide), if_pos rfl, h]
  simp only [Option.bind_eq_bind, Option.bind_some, List.drop_left]
  cases quotedText? rest <;> rfl

/-- Each character is read back from its escape. -/
theorem quotedText?_escape (c : Char) (rest : List Char) :
    quotedText? (escape c ++ rest) =
      (quotedText? rest).map fun found => (c :: found.1, found.2 + (escape c).length) := by
  rcases escape_cases c with ⟨letter, hescape, hletter, hlookup⟩ | ⟨hcontrol, hescape⟩ |
    ⟨hplain, hquote, hbackslash, hescape⟩
  · rw [hescape]
    exact @quotedText?_escaped [letter] rest c (escaped?_letter hletter hlookup rest)
  · rw [hescape]
    exact @quotedText?_escaped ['u', '0', '0', _, _] rest c (escaped?_control hcontrol rest)
  · rw [hescape, List.singleton_append, quotedText?, if_neg hquote, if_neg hbackslash,
      if_neg hplain]
    rfl

theorem quotedText?_text (text rest : List Char) :
    quotedText? (text.flatMap escape ++ '"' :: rest) =
      some (text, (text.flatMap escape).length + 1) := by
  induction text with
  | nil =>
      rw [List.flatMap_nil, List.nil_append, quotedText?, if_pos rfl]
      rfl
  | cons c text ih =>
      rw [List.flatMap_cons, List.append_assoc, quotedText?_escape, ih, Option.map_some,
        List.length_append]
      simp only [Option.some.injEq, Prod.mk.injEq, true_and]
      omega

def isBlank (c : Char) : Bool := c = ' ' || c = '\n' || c = '\r' || c = '\t'

def marks : List Char := ['[', ']', '\x7b', '\x7d', ':', ',']

def isLetter (c : Char) : Bool := 'a' ≤ c && c ≤ 'z'

def isNumberChar (c : Char) : Bool :=
  isAsciiDigit c || c = '-' || c = '+' || c = '.' || c = 'e' || c = 'E'

def word? (c : Char) (rest : List Char) : Option (Token × Nat) :=
  let tail := rest.takeWhile isLetter
  let word := String.ofList (c :: tail)
  if ["null", "true", "false"].contains word then some (.word word, tail.length) else none

def number? (c : Char) (rest : List Char) : Option (Token × Nat) :=
  let tail := rest.takeWhile isNumberChar
  if c = '0' && !tail.isEmpty then none
  else (magnitude? (c :: tail)).map fun n => (.count n, tail.length)

def token? (c : Char) (rest : List Char) : Option (Token × Nat) :=
  if marks.contains c then some (.mark c, 0)
  else if c = '"' then (quotedText? rest).map fun found => (.text (String.ofList found.1), found.2)
  else if isLetter c then word? c rest
  else number? c rest

def tokens? : List Char → Option (List Token)
  | [] => some []
  | c :: rest =>
    if isBlank c then tokens? rest
    else
      match token? c rest with
      | none => none
      | some (token, n) => (tokens? (rest.drop n)).map (token :: ·)
termination_by text => text.length
decreasing_by
  all_goals
    simp only [List.length_drop, List.length_cons]
    omega

theorem tokens?_nil : tokens? [] = some [] := by rw [tokens?]

theorem tokens?_blank {c : Char} (h : isBlank c = true) (rest : List Char) :
    tokens? (c :: rest) = tokens? rest := by
  rw [tokens?, if_pos h]

theorem tokens?_blanks {blanks : List Char} (h : ∀ c ∈ blanks, isBlank c = true)
    (rest : List Char) : tokens? (blanks ++ rest) = tokens? rest := by
  induction blanks with
  | nil => rfl
  | cons c blanks ih =>
      rw [List.forall_mem_cons] at h
      rw [List.cons_append, tokens?_blank h.1, ih h.2]

theorem tokens?_newLine (level : Nat) (rest : List Char) :
    tokens? (newLine level ++ rest) = tokens? rest := by
  refine tokens?_blanks (fun c hc => ?_) rest
  rcases List.mem_cons.mp hc with rfl | hc
  · rfl
  · rw [(List.mem_replicate.mp hc).2]
    rfl

theorem tokens?_cons {c : Char} {body rest : List Char} {token : Token} (hc : isBlank c = false)
    (h : token? c (body ++ rest) = some (token, body.length)) :
    tokens? (c :: (body ++ rest)) = (tokens? rest).map (token :: ·) := by
  rw [tokens?, hc, h]
  simp only [Bool.false_eq_true, if_false, List.drop_left]

theorem tokens?_mark {c : Char} (h : c ∈ marks) (rest : List Char) :
    tokens? (c :: rest) = (tokens? rest).map (.mark c :: ·) := by
  have hall : ∀ c ∈ marks, isBlank c = false := by simp [marks, isBlank]
  exact @tokens?_cons c [] rest (.mark c) (hall c h) (if_pos (by simpa using h))

theorem tokens?_quoted (text : String) (rest : List Char) :
    tokens? (quoted text ++ rest) = (tokens? rest).map (.text text :: ·) := by
  have hsplit : quoted text ++ rest =
      '"' :: ((text.toList.flatMap escape ++ ['"']) ++ rest) := rfl
  rw [hsplit, tokens?_cons (by decide)]
  have hmark : marks.contains '"' = false := by decide
  rw [token?, hmark, List.append_assoc, List.singleton_append, quotedText?_text]
  simp

def Apart (rest : List Char) : Prop :=
  ∀ c ∈ rest.head?, isLetter c = false ∧ isNumberChar c = false

theorem apart_cons {c : Char} (h : isLetter c = false ∧ isNumberChar c = false)
    (rest : List Char) : Apart (c :: rest) := by
  intro d hd
  cases hd
  exact h

theorem takeWhile_append {p : Char → Bool} {body rest : List Char} (h : ∀ c ∈ body, p c = true)
    (hrest : ∀ c ∈ rest.head?, p c = false) : (body ++ rest).takeWhile p = body := by
  rw [List.takeWhile_append_of_pos h]
  cases rest with
  | nil => simp
  | cons c rest => simp [hrest c rfl]

theorem plain_of_ne {p : Char → Bool} {c : Char}
    (h : ([' ', '\n', '\r', '\t', '"'] ++ marks).all (!p ·) = true) (hc : p c = true) :
    isBlank c = false ∧ marks.contains c = false ∧ c ≠ '"' := by
  have hne : ∀ d ∈ [' ', '\n', '\r', '\t', '"'] ++ marks, c ≠ d := by
    rintro d hd rfl
    simpa [hc] using List.all_eq_true.mp h c hd
  simp only [List.cons_append, List.nil_append, List.forall_mem_cons] at hne
  obtain ⟨hspace, hline, hreturn, htab, hquote, hmarks⟩ := hne
  refine ⟨by simp [isBlank, hspace, hline, hreturn, htab], ?_, hquote⟩
  rw [← Bool.not_eq_true, List.contains_iff_mem]
  exact fun hmem => hmarks c hmem rfl

theorem plain_of_isLetter {c : Char} : isLetter c = true →
    isBlank c = false ∧ marks.contains c = false ∧ c ≠ '"' :=
  plain_of_ne (by decide)

theorem plain_of_isAsciiDigit {c : Char} : isAsciiDigit c = true →
    isBlank c = false ∧ marks.contains c = false ∧ c ≠ '"' :=
  plain_of_ne (by decide)

theorem tokens?_word {c : Char} {body : List Char}
    (hword : String.ofList (c :: body) ∈ ["null", "true", "false"]) (hc : isLetter c = true)
    (hbody : body.all isLetter = true) {rest : List Char} (hrest : Apart rest) :
    tokens? (c :: (body ++ rest)) = (tokens? rest).map (.word (String.ofList (c :: body)) :: ·) := by
  have htake := takeWhile_append (List.all_eq_true.mp hbody) fun c hc => (hrest c hc).1
  obtain ⟨hblank, hmark, hquote⟩ := plain_of_isLetter hc
  refine tokens?_cons hblank ?_
  rw [token?, hmark, if_neg Bool.false_ne_true, if_neg hquote, if_pos hc, word?, htake]
  exact if_pos (List.contains_iff_mem.mpr hword)

theorem isLetter_of_isAsciiDigit {c : Char} (h : isAsciiDigit c = true) : isLetter c = false := by
  rw [isAsciiDigit, Bool.and_eq_true, decide_eq_true_eq, decide_eq_true_eq] at h
  have hlt : ¬ 'a' ≤ c := fun hle => absurd (Char.le_trans hle h.2) (by decide)
  rw [isLetter, decide_eq_false hlt, Bool.false_and]

/-- A count is written without a zero in front, unless it is zero. -/
theorem tail_eq_nil_of_zero {n : Nat} {body : List Char} (h : (toString n).toList = '0' :: body) :
    body = [] := by
  rcases Nat.eq_zero_or_pos n with rfl | hpos
  · exact (List.cons.inj h).2.symm
  · exact absurd (congrArg List.head? h) (head?_repr hpos)

theorem tokens?_count (n : Nat) {rest : List Char} (hrest : Apart rest) :
    tokens? ((toString n).toList ++ rest) = (tokens? rest).map (.count n :: ·) := by
  have hvalue : magnitude? (toString n).toList = some n := magnitude?_repr n
  have hdigits : ∀ c ∈ (toString n).toList, isAsciiDigit c = true := fun c =>
    isAsciiDigit_of_mem_repr
  have hzero := @tail_eq_nil_of_zero n
  revert hvalue hdigits hzero
  cases (toString n).toList with
  | nil =>
      intro hvalue
      cases hvalue
  | cons c body =>
      intro hvalue hdigits hzero
      rw [List.forall_mem_cons] at hdigits
      have hbody : ∀ c ∈ body, isNumberChar c = true := fun c hc => by
        simp [isNumberChar, hdigits.2 c hc]
      have htake := takeWhile_append hbody fun c hc => (hrest c hc).2
      obtain ⟨hblank, hmark, hquote⟩ := plain_of_isAsciiDigit hdigits.1
      have hfront : (decide (c = '0') && !body.isEmpty) = false := by
        rw [Bool.and_eq_false_iff, decide_eq_false_iff_not]
        by_cases hc : c = '0'
        · obtain rfl := hzero (congrArg (· :: body) hc)
          exact .inr rfl
        · exact .inl hc
      refine tokens?_cons hblank ?_
      rw [token?, hmark, if_neg Bool.false_ne_true, if_neg hquote,
        isLetter_of_isAsciiDigit hdigits.1, if_neg Bool.false_ne_true, number?, htake, hfront,
        if_neg Bool.false_ne_true, hvalue, Option.map_some]

mutual

def tokens : Json → List Token
  | null => [.word "null"]
  | bool true => [.word "true"]
  | bool false => [.word "false"]
  | count value => [.count value]
  | string value => [.text value]
  | array [] => [.mark '[', .mark ']']
  | array (first :: rest) => .mark '[' :: (first.tokens ++ (elementTokens rest ++ [.mark ']']))
  | object [] => [.mark '\x7b', .mark '\x7d']
  | object ((key, value) :: rest) =>
    .mark '\x7b' :: .text key :: .mark ':' :: (value.tokens ++ (memberTokens rest ++ [.mark '\x7d']))

def elementTokens : List Json → List Token
  | [] => []
  | next :: rest => .mark ',' :: (next.tokens ++ elementTokens rest)

def memberTokens : List (String × Json) → List Token
  | [] => []
  | (key, value) :: rest =>
    .mark ',' :: .text key :: .mark ':' :: (value.tokens ++ memberTokens rest)

end

theorem apart_of_mem_marks {c : Char} (h : c ∈ marks) (rest : List Char) : Apart (c :: rest) :=
  have hall : ∀ c ∈ marks, isLetter c = false ∧ isNumberChar c = false := by
    simp [marks, isLetter, isNumberChar, isAsciiDigit]
  apart_cons (hall c h) rest

theorem apart_newLine (level : Nat) (rest : List Char) : Apart (newLine level ++ rest) :=
  apart_cons (by decide) _

theorem apart_moreElements (level : Nat) (elements : List Json) {rest : List Char}
    (hrest : Apart rest) : Apart (moreElements level elements ++ rest) := by
  cases elements with
  | nil => exact hrest
  | cons next others => exact apart_of_mem_marks (by decide) _

theorem apart_moreMembers (level : Nat) (members : List (String × Json)) {rest : List Char}
    (hrest : Apart rest) : Apart (moreMembers level members ++ rest) := by
  cases members with
  | nil => exact hrest
  | cons next others => exact apart_of_mem_marks (by decide) _

mutual

/-- The text of a value is split into the tokens of the value. -/
theorem tokens?_layout (level : Nat) : (json : Json) → {rest : List Char} → Apart rest →
    tokens? (layout level json ++ rest) = (tokens? rest).map (json.tokens ++ ·)
  | null, rest, hrest => by
      exact tokens?_word (by decide) (by decide) (by decide) hrest
  | bool true, rest, hrest => by
      exact tokens?_word (by decide) (by decide) (by decide) hrest
  | bool false, rest, hrest => by
      exact tokens?_word (by decide) (by decide) (by decide) hrest
  | count value, rest, hrest => tokens?_count value hrest
  | string value, rest, _ => tokens?_quoted value rest
  | array [], rest, _ => by
      rw [layout, tokens, List.cons_append, List.cons_append, tokens?_mark (by decide),
        tokens?_mark (by decide), Option.map_map]
      rfl
  | array (first :: others), rest, hrest => by
      have hclose := apart_newLine level (']' :: rest)
      have hothers := apart_moreElements (level + 1) others hclose
      simp only [layout, List.cons_append, List.append_assoc, List.nil_append]
      rw [tokens?_mark (by decide), tokens?_newLine, tokens?_layout (level + 1) first hothers,
        tokens?_moreElements (level + 1) others hclose, tokens?_newLine, tokens?_mark (by decide)]
      simp [tokens, Function.comp_def]
  | object [], rest, _ => by
      rw [layout, tokens, List.cons_append, List.cons_append, tokens?_mark (by decide),
        tokens?_mark (by decide), Option.map_map]
      rfl
  | object ((key, value) :: others), rest, hrest => by
      have hclose := apart_newLine level ('\x7d' :: rest)
      have hothers := apart_moreMembers (level + 1) others hclose
      simp only [layout, List.cons_append, List.append_assoc, List.nil_append]
      rw [tokens?_mark (by decide), tokens?_newLine, tokens?_quoted, tokens?_mark (by decide),
        tokens?_blank (by decide), tokens?_layout (level + 1) value hothers,
        tokens?_moreMembers (level + 1) others hclose, tokens?_newLine, tokens?_mark (by decide)]
      simp [tokens, Function.comp_def]

theorem tokens?_moreElements (level : Nat) : (elements : List Json) → {rest : List Char} →
    Apart rest →
    tokens? (moreElements level elements ++ rest) = (tokens? rest).map (elementTokens elements ++ ·)
  | [], rest, hrest => by
      simp [moreElements, elementTokens]
  | next :: others, rest, hrest => by
      have htail := apart_moreElements level others hrest
      simp only [moreElements, List.cons_append, List.append_assoc]
      rw [tokens?_mark (by decide), tokens?_newLine, tokens?_layout level next htail,
        tokens?_moreElements level others hrest]
      simp [elementTokens, Function.comp_def]

theorem tokens?_moreMembers (level : Nat) : (members : List (String × Json)) → {rest : List Char} →
    Apart rest →
    tokens? (moreMembers level members ++ rest) = (tokens? rest).map (memberTokens members ++ ·)
  | [], rest, hrest => by
      simp [moreMembers, memberTokens]
  | (key, value) :: others, rest, hrest => by
      have htail := apart_moreMembers level others hrest
      simp only [moreMembers, List.cons_append, List.append_assoc, List.nil_append]
      rw [tokens?_mark (by decide), tokens?_newLine, tokens?_quoted, tokens?_mark (by decide),
        tokens?_blank (by decide), tokens?_layout level value htail,
        tokens?_moreMembers level others hrest]
      simp [memberTokens, Function.comp_def]

end

end MiniJava.Json
