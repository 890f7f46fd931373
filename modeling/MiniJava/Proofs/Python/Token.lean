import MiniJava.Proofs.Token.Spelling

/-!
# Tokens of Python expressions

How Python splits the text of an expression: words, decimal numbers, strings between two quotes,
and symbols, each as long as it can be. A text that needs a token of another kind, such as a
hexadecimal number or a string with a letter in front, is not split at all.
-/

namespace MiniJava.Python

open Text Lexeme

inductive Token where
  | word (text : String)
  | number (text : String)
  | string (text : String)
  | symbol (text : String)
deriving DecidableEq, Repr

def keywords : List String :=
  ["False", "None", "True", "and", "as", "assert", "async", "await", "break", "class", "continue",
    "def", "del", "elif", "else", "except", "finally", "for", "from", "global", "if", "import",
    "in", "is", "lambda", "nonlocal", "not", "or", "pass", "raise", "return", "try", "while",
    "with", "yield"]

/-- The names that mean something to Python or to emitted code. -/
def reserved : List String := keywords ++ ["print", "str", "range"]

def isIdentifier (text : String) : Bool :=
  match text.toList with
  | [] => false
  | c :: body => isIdentifierStart c && body.all isIdentifierPart

def isName (text : String) : Bool := isIdentifier text && !keywords.contains text

/-- The names that can be assigned: the constant `__debug__` is called like a name. -/
def isTarget (name : String) : Bool := isName name && name != "__debug__"

theorem isName_of_isTarget {name : String} (h : isTarget name = true) : isName name = true :=
  (Bool.and_eq_true_iff.mp h).1

def isWordChar (c : Char) : Bool := isIdentifierPart c || 128 ≤ c.toNat

def word? (c : Char) (rest : List Char) : Option (Token × Nat) :=
  let tail := rest.takeWhile isWordChar
  let quoted := (rest.drop tail.length).head?.any fun next => next = '"' || next = '\''
  if tail.all isIdentifierPart && !quoted then
    some (.word (String.ofList (c :: tail)), tail.length)
  else none

def isExponentMark (c : Char) : Bool := c = 'e' || c = 'E'

/-- The characters a number goes on over; a sign belongs to it directly behind an `e`. -/
def numberRun (marked : Bool) : List Char → List Char
  | [] => []
  | c :: rest =>
    if isWordChar c || c = '.' || (marked && (c = '+' || c = '-')) then
      c :: numberRun (isExponentMark c) rest
    else []

def isExponent : List Char → Bool
  | [] => true
  | c :: rest =>
    let digits := rest.drop (signLength rest)
    isExponentMark c && !digits.isEmpty && digits.all isAsciiDigit

/-- A decimal number; one without a point and an exponent does not begin with a zero, unless all
its digits are zeros. -/
def isDecimal (text : List Char) : Bool :=
  let digits := text.takeWhile isAsciiDigit
  !digits.isEmpty &&
    match text.dropWhile isAsciiDigit with
    | [] => digits.head? ≠ some '0' || digits.all (· = '0')
    | '.' :: rest => isExponent (rest.dropWhile isAsciiDigit)
    | rest => isExponent rest

def number? (c : Char) (rest : List Char) : Option (Token × Nat) :=
  let tail := numberRun false rest
  if isDecimal (c :: tail) then some (.number (String.ofList (c :: tail)), tail.length) else none

/-- The characters that a string between two quotes cannot hold: the first two end the line, and
the third can stand nowhere in a program. -/
def isBreak (c : Char) : Bool := c = '\n' || c = '\r' || c = '\x00'

def stringEnd (quote : Char) : List Char → Option Nat
  | [] => none
  | '\\' :: c :: rest => if isBreak c then none else (stringEnd quote rest).map (· + 2)
  | c :: rest =>
    if c = quote then some 1
    else if isBreak c || c = '\\' then none
    else (stringEnd quote rest).map (· + 1)

/-- Neither a carriage return nor a null character is in the text. -/
def IsPlain (text : List Char) : Prop := ∀ c ∈ text, c ≠ '\r' ∧ c ≠ '\x00'

def string? (quote : Char) (rest : List Char) : Option (Token × Nat) :=
  if [quote, quote].isPrefixOf rest then none
  else (stringEnd quote rest).map fun n => (.string (String.ofList (quote :: rest.take n)), n)

def symbols : List String :=
  ["**=", "//=", ">>=", "<<=", "...", "**", "//", ">>", "<<", "<=", ">=", "==", "!=", "->", ":=",
    "+=", "-=", "*=", "/=", "%=", "&=", "|=", "^=", "@=", "+", "-", "*", "/", "%", "@", "&", "|",
    "^", "~", "<", ">", "(", ")", "[", "]", "\x7b", "\x7d", ",", ":", ";", ".", "="]

def symbol? (c : Char) (rest : List Char) : Option (Token × Nat) :=
  [2, 1, 0].findSome? fun n =>
    let body := rest.take n
    if symbols.contains (String.ofList (c :: body)) then
      some (.symbol (String.ofList (c :: body)), body.length)
    else none

def token? (c : Char) (rest : List Char) : Option (Token × Nat) :=
  if isIdentifierStart c then word? c rest
  else if isAsciiDigit c then number? c rest
  else if c = '"' || c = '\'' then string? c rest
  else if c = '.' && rest.head?.any isAsciiDigit then none
  else symbol? c rest

def tokens? : List Char → Option (List Token)
  | [] => some []
  | c :: rest =>
    if c = ' ' then tokens? rest
    else
      match token? c rest with
      | none => none
      | some (token, n) => (tokens? (rest.drop n)).map (token :: ·)
termination_by text => text.length
decreasing_by
  all_goals
    simp only [List.length_drop, List.length_cons]
    omega

theorem tokens?_nil : tokens? [] = some [] := by rw [tokens?]

theorem tokens?_blank (rest : List Char) : tokens? (' ' :: rest) = tokens? rest := by
  rw [tokens?, if_pos rfl]

theorem tokens?_cons {c : Char} {body rest : List Char} {token : Token} (hc : c ≠ ' ')
    (h : token? c (body ++ rest) = some (token, body.length)) :
    tokens? (c :: (body ++ rest)) = (tokens? rest).map (token :: ·) := by
  rw [tokens?, if_neg hc, h]
  simp only [List.drop_left]

theorem tokens?_eq_none {c : Char} {rest : List Char} (hc : c ≠ ' ') (h : token? c rest = none) :
    tokens? (c :: rest) = none := by
  rw [tokens?, if_neg hc, h]

theorem not_blank_of_identifierStart {c : Char} (h : isIdentifierStart c = true) : c ≠ ' ' := by
  rintro rfl
  simp [isIdentifierStart, isAsciiLetter] at h

def EndsWord (rest : List Char) : Prop :=
  ∀ c ∈ rest.head?, isWordChar c = false ∧ c ≠ '"' ∧ c ≠ '\''

theorem tokens?_word {text : String} {rest : List Char} (h : isIdentifier text = true)
    (hrest : EndsWord rest) :
    tokens? (text.toList ++ rest) = (tokens? rest).map (.word text :: ·) := by
  unfold isIdentifier at h
  split at h
  · cases h
  · next c body htext =>
      rw [Bool.and_eq_true, List.all_eq_true] at h
      have hbody : ∀ b ∈ body, isWordChar b = true := fun b hb => by simp [isWordChar, h.2 b hb]
      have hrun := takeWhile_run hbody fun b hb => (hrest b hb).1
      have hquoted : (rest.head?.any fun next => next = '"' || next = '\'') = false := by
        cases rest with
        | nil => rfl
        | cons d rest => simp [(hrest d rfl).2]
      have htoken : token? c (body ++ rest) = some (.word text, body.length) := by
        have hword : String.ofList (c :: body) = text := by rw [← htext, String.ofList_toList]
        simp only [token?, if_pos h.1, word?, hrun, List.drop_left, hquoted, hword,
          List.all_eq_true.mpr h.2]
        rfl
      rw [htext, List.cons_append, tokens?_cons (not_blank_of_identifierStart h.1) htoken]

def EndsNumber (rest : List Char) : Prop :=
  ∀ c ∈ rest.head?, isWordChar c = false ∧ c ≠ '.'

theorem isWordChar_of_digit {c : Char} (h : isAsciiDigit c = true) : isWordChar c = true := by
  simp [isWordChar, isIdentifierPart, h]

theorem digit_range {c : Char} (h : isAsciiDigit c = true) : 48 ≤ c.toNat ∧ c.toNat ≤ 57 := by
  simpa [isAsciiDigit, Char.le_def, UInt32.le_iff_toNat_le] using h

theorem not_identifierStart_of_digit {c : Char} (h : isAsciiDigit c = true) :
    isIdentifierStart c = false := by
  have hrange := digit_range h
  by_contra hstart
  simp only [isIdentifierStart, isAsciiLetter, Char.le_def, UInt32.le_iff_toNat_le,
    Bool.not_eq_false, Bool.or_eq_true, Bool.and_eq_true, decide_eq_true_eq, beq_iff_eq] at hstart
  rcases hstart with (hlow | hup) | rfl
  · exact absurd (hlow.1.trans hrange.2) (by decide)
  · exact absurd (hup.1.trans hrange.2) (by decide)
  · exact absurd hrange.2 (by decide)

theorem not_mark_of_digit {c : Char} (h : isAsciiDigit c = true) : isExponentMark c = false := by
  have hrange := digit_range h
  by_contra hmark
  simp only [isExponentMark, Bool.not_eq_false, Bool.or_eq_true, decide_eq_true_eq] at hmark
  rcases hmark with rfl | rfl
  · exact absurd hrange.2 (by decide)
  · exact absurd hrange.2 (by decide)

theorem numberRun_cons (marked : Bool) {c : Char} (rest : List Char)
    (h : isWordChar c = true ∨ c = '.') :
    numberRun marked (c :: rest) = c :: numberRun (isExponentMark c) rest := by
  rw [numberRun, if_pos]
  rcases h with h | h
  · simp [h]
  · simp [h]

theorem numberRun_digit (marked : Bool) {c : Char} (rest : List Char)
    (h : isAsciiDigit c = true) : numberRun marked (c :: rest) = c :: numberRun false rest := by
  rw [numberRun_cons marked rest (.inl (isWordChar_of_digit h)), not_mark_of_digit h]

theorem numberRun_stop {rest : List Char} (h : EndsNumber rest) : numberRun false rest = [] := by
  cases rest with
  | nil => rfl
  | cons c rest => simp [numberRun, h c rfl]

theorem numberRun_digits {digits : List Char} (h : ∀ c ∈ digits, isAsciiDigit c = true)
    (rest : List Char) : numberRun false (digits ++ rest) = digits ++ numberRun false rest := by
  induction digits with
  | nil => rfl
  | cons c digits ih =>
      rw [List.cons_append, numberRun_digit _ _ (h c (by simp)), ih fun b hb => h b (by simp [hb])]
      rfl

theorem numberRun_exponent {text rest : List Char} (h : isExponent text = true)
    (hrest : EndsNumber rest) : numberRun false (text ++ rest) = text := by
  have hrun : ∀ digits : List Char, (∀ d ∈ digits, isAsciiDigit d = true) →
      numberRun false (digits ++ rest) = digits := by
    intro digits hdigits
    rw [numberRun_digits hdigits, numberRun_stop hrest, List.append_nil]
  cases text with
  | nil => exact numberRun_stop hrest
  | cons c tail =>
      simp only [isExponent, Bool.and_eq_true, Bool.not_eq_true', List.all_eq_true] at h
      obtain ⟨⟨hmark, hdigits⟩, hall⟩ := h
      have hword : isWordChar c = true := by
        simp only [isExponentMark, Bool.or_eq_true, decide_eq_true_eq] at hmark
        rcases hmark with rfl | rfl
        · decide
        · decide
      rw [List.cons_append, numberRun_cons false _ (.inl hword), hmark]
      have htail : numberRun true (tail ++ rest) = tail := by
        unfold signLength at hdigits hall
        split at hall
        · next digits =>
            have hdigits := hrun digits hall
            simp [numberRun, isExponentMark, hdigits]
        · next digits =>
            have hdigits := hrun digits hall
            simp [numberRun, isExponentMark, hdigits]
        · cases tail with
          | nil => simp at hdigits
          | cons d digits =>
              simp only [List.drop_zero, List.forall_mem_cons] at hall
              rw [List.cons_append, numberRun_digit _ _ hall.1, hrun digits hall.2]
      rw [htail]

theorem numberRun_decimal {text rest : List Char} (h : isDecimal text = true)
    (hrest : EndsNumber rest) : numberRun false (text ++ rest) = text := by
  have hdigits : ∀ digits : List Char, ∀ d ∈ digits.takeWhile isAsciiDigit,
      isAsciiDigit d = true := fun _ _ hd => List.mem_takeWhile_imp hd
  have hsplit : ∀ digits : List Char,
      digits.takeWhile isAsciiDigit ++ digits.dropWhile isAsciiDigit = digits :=
    fun _ => List.takeWhile_append_dropWhile
  rw [isDecimal, Bool.and_eq_true] at h
  have hbehind : numberRun false (text.dropWhile isAsciiDigit ++ rest) =
      text.dropWhile isAsciiDigit := by
    obtain ⟨_, h⟩ := h
    split at h
    · next heq =>
        rw [heq]
        exact numberRun_stop hrest
    · next tail heq =>
        rw [heq, List.cons_append, numberRun_cons _ _ (.inr rfl), ← hsplit tail,
          List.append_assoc]
        change '.' :: numberRun false _ = _
        rw [numberRun_digits (hdigits tail), numberRun_exponent h hrest]
    · exact numberRun_exponent h hrest
  rw [← hsplit text, List.append_assoc, numberRun_digits (hdigits text), hbehind]

theorem tokens?_number {text : String} {rest : List Char} (h : isDecimal text.toList = true)
    (hrest : EndsNumber rest) :
    tokens? (text.toList ++ rest) = (tokens? rest).map (.number text :: ·) := by
  have hrun := numberRun_decimal h hrest
  cases htext : text.toList with
  | nil => simp [htext, isDecimal] at h
  | cons c body =>
      rw [htext] at h hrun
      have hc : isAsciiDigit c = true := by
        by_contra hnot
        simp [isDecimal, hnot] at h
      have hrange := digit_range hc
      have hletter := not_identifierStart_of_digit hc
      rw [List.cons_append, numberRun_digit _ _ hc] at hrun
      have htoken : token? c (body ++ rest) = some (.number text, body.length) := by
        have hnumber : String.ofList (c :: body) = text := by rw [← htext, String.ofList_toList]
        simp only [token?, hletter, Bool.false_eq_true, if_false, if_pos hc, number?,
          (List.cons.inj hrun).2, if_pos h, hnumber]
      have hblank : c ≠ ' ' := by
        rintro rfl
        exact absurd hrange.1 (by decide)
      rw [List.cons_append, tokens?_cons hblank htoken]

theorem isBreak_of_plain {c : Char} (hnewline : c ≠ '\n') (hplain : c ≠ '\r' ∧ c ≠ '\x00') :
    isBreak c = false := by
  simp [isBreak, hnewline, hplain]

theorem stringEnd_quotable {quote : Char} {body : List Char} (h : Quotable quote body)
    (hplain : IsPlain body) (hquote : quote ≠ '\\') (rest : List Char) :
    stringEnd quote (body ++ quote :: rest) = some (body.length + 1) := by
  induction h with
  | nil =>
      rw [List.nil_append, stringEnd, if_pos rfl]
      · rfl
      · rintro c tail rfl
        exact absurd rfl hquote
  | @plain c body hne hslash hnewline _ ih =>
      obtain ⟨hc, hbody⟩ := List.forall_mem_cons.mp hplain
      have hgo : ¬ (isBreak c || c = '\\') = true := by
        simp [isBreak_of_plain hnewline hc, hslash]
      rw [List.cons_append, stringEnd, if_neg hne, if_neg hgo, ih hbody]
      · rfl
      · rintro d tail rfl
        exact absurd rfl hslash
  | @escape c body hnewline _ ih =>
      obtain ⟨hc, hbody⟩ := List.forall_mem_cons.mp (List.forall_mem_cons.mp hplain).2
      have hgo : ¬ isBreak c = true := by simp [isBreak_of_plain hnewline hc]
      rw [List.cons_append, List.cons_append, stringEnd, if_neg hgo, ih hbody]
      rfl

theorem tokens?_string {quote : Char} {body rest : List Char} (h : Quotable quote body)
    (hplain : IsPlain body) (hquote : quote = '"' ∨ quote = '\'')
    (hrest : ∀ c ∈ rest.head?, c ≠ quote) :
    tokens? (quote :: (body ++ [quote]) ++ rest) =
      (tokens? rest).map (.string (String.ofList (quote :: (body ++ [quote]))) :: ·) := by
  have hslash : quote ≠ '\\' := by rcases hquote with rfl | rfl <;> decide
  have hend := stringEnd_quotable h hplain hslash rest
  have hsingle : [quote, quote].isPrefixOf (body ++ quote :: rest) = false := by
    by_contra htriple
    rw [Bool.not_eq_false, List.isPrefixOf_iff_prefix] at htriple
    obtain ⟨tail, htail⟩ := htriple
    cases h with
    | nil =>
        obtain ⟨_, heq⟩ := List.cons.inj htail
        exact hrest quote (by rw [← heq]; rfl) rfl
    | plain hne _ _ _ => exact hne (List.cons.inj htail).1.symm
    | escape _ _ => exact hslash (List.cons.inj htail).1
  have htoken : token? quote (body ++ [quote] ++ rest) =
      some (.string (String.ofList (quote :: (body ++ [quote]))), (body ++ [quote]).length) := by
    have hstart : isIdentifierStart quote = false ∧ isAsciiDigit quote = false := by
      rcases hquote with rfl | rfl <;> decide
    have hif : (decide (quote = '"') || decide (quote = '\'')) = true := by simpa using hquote
    have htake : (body ++ quote :: rest).take (body.length + 1) = body ++ [quote] := by
      simp [List.take_append]
    rw [List.append_assoc, List.cons_append, List.nil_append]
    simp only [token?, hstart, Bool.false_eq_true, if_false, if_pos hif, string?, hsingle, hend,
      Option.map_some, htake, List.length_append, List.length_cons, List.length_nil]
  have hblank : quote ≠ ' ' := by rcases hquote with rfl | rfl <;> decide
  rw [List.cons_append, tokens?_cons hblank htoken]

theorem head_of_mem_pythonSymbols : ∀ text ∈ symbols, ∀ c ∈ text.toList.head?,
    isIdentifierStart c = false ∧ isAsciiDigit c = false ∧ c ≠ '"' ∧ c ≠ '\'' ∧ c ≠ ' ' := by
  have hall : ∀ text ∈ symbols, (text.toList.head?.all fun c =>
      isIdentifierStart c = false ∧ isAsciiDigit c = false ∧ c ≠ '"' ∧ c ≠ '\'' ∧ c ≠ ' ') =
        true := by
    decide
  intro text htext c hc
  exact of_decide_eq_true ((Option.all_eq_true _ _).mp (hall text htext) c hc)

/-- The longest symbol is taken, so one that does not go on over the text behind it. -/
theorem symbol?_of_mem {c : Char} {body rest : List Char} (h : String.ofList (c :: body) ∈ symbols)
    (hlength : body.length ≤ 1)
    (hlonger : ∀ d ∈ rest.head?, ∀ more, String.ofList (c :: (body ++ d :: more)) ∉ symbols) :
    symbol? c (body ++ rest) = some (.symbol (String.ofList (c :: body)), body.length) := by
  have htake : (body ++ rest).take body.length = body := List.take_left
  have hfound : ∀ n, n = body.length →
      symbols.contains (String.ofList (c :: (body ++ rest).take n)) = true := by
    rintro n rfl
    rw [htake]
    simpa using h
  have hlarge : ∀ n, body.length < n →
      symbols.contains (String.ofList (c :: (body ++ rest).take n)) = true →
      (body ++ rest).take n = body := by
    intro n hn hcontains
    cases rest with
    | nil => rw [List.append_nil, List.take_of_length_le hn.le]
    | cons d rest =>
        rw [List.take_append, List.take_of_length_le hn.le,
          ← Nat.sub_add_cancel (Nat.sub_pos_of_lt hn)] at hcontains
        exact absurd (by simpa using hcontains) (hlonger d rfl _)
  simp only [symbol?, List.findSome?_cons, List.findSome?_nil]
  by_cases htwo : symbols.contains (String.ofList (c :: (body ++ rest).take 2)) = true
  · rw [if_pos htwo, hlarge 2 (by omega) htwo]
  · rw [if_neg htwo]
    by_cases hone : symbols.contains (String.ofList (c :: (body ++ rest).take 1)) = true
    · rw [if_pos hone]
      by_cases hempty : body.length < 1
      · rw [hlarge 1 hempty hone]
      · rw [show 1 = body.length by omega, htake]
    · have hnone : 0 = body.length := by
        by_contra hpos
        exact hone (hfound 1 (by omega))
      rw [if_neg hone, if_pos (hfound 0 hnone), hnone, htake]

/-- A symbol that does not go on over the text behind it is read. -/
theorem tokens?_symbol {c : Char} {body rest : List Char} (h : String.ofList (c :: body) ∈ symbols)
    (hlength : body.length ≤ 1)
    (hlonger : ∀ d ∈ rest.head?, ∀ more, String.ofList (c :: (body ++ d :: more)) ∉ symbols)
    (hpoint : c = '.' → ∀ d ∈ (body ++ rest).head?, isAsciiDigit d = false) :
    tokens? (c :: body ++ rest) =
      (tokens? rest).map (.symbol (String.ofList (c :: body)) :: ·) := by
  obtain ⟨hstart, hdigit, hdouble, hsingle, hblank⟩ :=
    head_of_mem_pythonSymbols _ h c (by simp)
  have hnumber : ¬ (decide (c = '.') && (body ++ rest).head?.any isAsciiDigit) = true := by
    intro hboth
    simp only [Bool.and_eq_true, decide_eq_true_eq, Option.any_eq_true] at hboth
    obtain ⟨hc, d, hd, hdigit⟩ := hboth
    rw [hpoint hc d hd] at hdigit
    cases hdigit
  have htoken : token? c (body ++ rest) =
      some (.symbol (String.ofList (c :: body)), body.length) := by
    simp only [token?, hstart, hdigit, hdouble, hsingle, Bool.false_eq_true, if_false,
      decide_false, Bool.or_self, if_neg hnumber, symbol?_of_mem h hlength hlonger]
  rw [List.cons_append, tokens?_cons hblank htoken]

def continuesSymbol (c : Char) : Bool := ['*', '/', '>', '<', '=', '.'].contains c

/-- A symbol of one character is read in front of a character that does not go on with it. -/
theorem tokens?_single {c : Char} {rest : List Char} (h : String.ofList [c] ∈ symbols)
    (hc : c ≠ '.') (hrest : ∀ d ∈ rest.head?, continuesSymbol d = false) :
    tokens? (c :: rest) = (tokens? rest).map (.symbol (String.ofList [c]) :: ·) := by
  have hsecond : ∀ text ∈ symbols, text.toList.tail.head?.all continuesSymbol = true := by
    decide
  refine @tokens?_symbol c [] rest h (by decide) ?_ fun heq => absurd heq hc
  intro d hd more hmem
  have hcontinues := hsecond _ hmem
  simp [hrest d hd] at hcontinues

/-- A symbol that no other begins with is read in front of any text. -/
theorem tokens?_alone {c : Char} (rest : List Char) (h : String.ofList [c] ∈ symbols)
    (halone : ∀ text ∈ symbols, text.toList.head? = some c → text.toList.tail = []) (hc : c ≠ '.') :
    tokens? (c :: rest) = (tokens? rest).map (.symbol (String.ofList [c]) :: ·) := by
  refine @tokens?_symbol c [] rest h (by decide) ?_ fun heq => absurd heq hc
  intro d _ more hmem
  have htail := halone _ hmem (by simp)
  simp at htail

theorem tokens?_open (rest : List Char) :
    tokens? ('(' :: rest) = (tokens? rest).map (.symbol "(" :: ·) :=
  tokens?_alone rest (by decide) (by decide +kernel) (by decide)

theorem tokens?_close (rest : List Char) :
    tokens? (')' :: rest) = (tokens? rest).map (.symbol ")" :: ·) :=
  tokens?_alone rest (by decide) (by decide +kernel) (by decide)

theorem tokens?_point {c : Char} (rest : List Char) (h : isIdentifierStart c = true) :
    tokens? ('.' :: c :: rest) = (tokens? (c :: rest)).map (.symbol "." :: ·) := by
  have hpoint : ∀ text ∈ symbols, text.toList.head? = some '.' →
      text.toList.tail.head?.any isIdentifierStart = false := by decide
  refine @tokens?_symbol '.' [] (c :: rest) (by decide) (by decide) ?_ ?_
  · intro d hd more hmem
    cases hd
    have hnot := hpoint _ hmem (by simp)
    simp [h] at hnot
  · intro _ d hd
    cases hd
    by_contra hdigit
    rw [Bool.not_eq_false] at hdigit
    rw [not_identifierStart_of_digit hdigit] at h
    cases h

/-- A symbol is read in front of a blank. -/
theorem tokens?_spaced {text : String} (h : text ∈ symbols) (hlength : text.toList.length ≤ 2)
    (hpoint : text.toList.head? ≠ some '.') (rest : List Char) :
    tokens? (text.toList ++ ' ' :: rest) = (tokens? rest).map (.symbol text :: ·) := by
  have hempty : ∀ text ∈ symbols, text.toList ≠ [] ∧ ' ' ∉ text.toList := by decide
  obtain ⟨c, body, hbody⟩ := List.exists_cons_of_ne_nil (hempty text h).1
  have htext : text = String.ofList (c :: body) := by rw [← hbody, String.ofList_toList]
  rw [hbody] at hlength hpoint ⊢
  rw [tokens?_symbol (htext ▸ h) (by simpa using hlength), tokens?_blank, ← htext]
  · intro d hd more hmem
    cases hd
    exact (hempty _ hmem).2 (by simp)
  · intro hc
    exact absurd (congrArg some hc) (by simpa using hpoint)

end MiniJava.Python
