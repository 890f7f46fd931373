import Mathlib.Data.List.Find
import MiniJava.Proofs.Token.Regular

/-!
# Lexemes in front of layout

A lexeme that is read somewhere is read again, with the same kind, wherever a blank or a newline
stands behind it. This is shown rule by rule. Two lexemes are left out: an error may be the
beginning of a literal that layout would end, and a keyword may have been cut off by a letter or a
digit that identifiers do not have, and then was read as an identifier.
-/

namespace MiniJava

open Text

namespace Lexeme

def isLayout (c : Char) : Bool := c == '\n' || isBlank c

def BeginsLayout (text : List Char) : Prop := ∀ c ∈ text.head?, isLayout c = true

theorem endsWord_iff {rest : List Char} :
    endsWord rest = true ↔ ∀ c ∈ rest.head?, isWord c = false := by
  cases rest <;> simp [endsWord]

theorem layout_cases {c : Char} (h : isLayout c = true) :
    c = '\n' ∨ c = ' ' ∨ c = '\t' ∨ c = '\r' := by
  simpa [isLayout, isBlank, or_assoc] using h

namespace BeginsLayout

variable {more : List Char} (hmore : BeginsLayout more)
include hmore

/-- A class of characters without layout does not go on behind a lexeme. -/
theorem head_eq_false (p : Char → Bool)
    (hp : p '\n' = false ∧ p ' ' = false ∧ p '\t' = false ∧ p '\r' = false) :
    ∀ c ∈ more.head?, p c = false := by
  intro c hc
  obtain ⟨hnewline, hspace, htab, hreturn⟩ := hp
  rcases layout_cases (hmore c hc) with rfl | rfl | rfl | rfl
  · exact hnewline
  · exact hspace
  · exact htab
  · exact hreturn

theorem endsWord : endsWord more = true :=
  endsWord_iff.mpr (hmore.head_eq_false isWord (by decide))

theorem takeWhile_run {p : Char → Bool} {run : List Char} (hrun : ∀ b ∈ run, p b = true)
    (hp : p '\n' = false ∧ p ' ' = false ∧ p '\t' = false ∧ p '\r' = false) :
    (run ++ more).takeWhile p = run :=
  Lexeme.takeWhile_run hrun (hmore.head_eq_false p hp)

end BeginsLayout

/-- Whatever layout stands behind it, the lexeme is read as one of this kind. -/
def StandsAlone (kind : TokenKind) (lexeme : List Char) : Prop :=
  ∃ c body, lexeme = c :: body ∧
    ∀ more, BeginsLayout more → read? c (body ++ more) = some (kind, body.length)

/-- The first rule that applies decides. -/
theorem read?_of_rule {c : Char} {rest : List Char} {found : TokenKind × Nat}
    (before : List Rule) (rule : Rule) (behind : List Rule)
    (hrules : rules = before ++ rule :: behind)
    (hbefore : ∀ other ∈ before, other c rest = none) (h : rule c rest = some found) :
    read? c rest = some found := by
  rw [read?, hrules, List.findSome?_append, List.findSome?_eq_none_iff.mpr hbefore,
    Option.none_or, List.findSome?_cons, h]

theorem comment_eq_none {c : Char} (rest : List Char) (h : c ≠ '/') : comment c rest = none := by
  unfold comment
  split
  · exact absurd rfl h
  · exact absurd rfl h
  · rfl

def isOpening (c : Char) : Bool :=
  c == '/' || isLayout c || c == '"' || c == '\''

theorem early_rules_none {c : Char} (rest : List Char) (h : isOpening c = false) :
    ∀ rule ∈ [comment, newline, blanks, stringLiteral, charLiteral], rule c rest = none := by
  simp only [isOpening, isLayout, Bool.or_eq_false_iff, beq_eq_false_iff_ne] at h
  obtain ⟨⟨⟨hslash, hnewline, hblank⟩, hquote⟩, hmark⟩ := h
  intro rule hrule
  simp only [List.mem_cons, List.not_mem_nil, or_false] at hrule
  rcases hrule with rfl | rfl | rfl | rfl | rfl
  · exact comment_eq_none rest hslash
  · exact if_neg hnewline
  · exact if_neg (by simp [hblank])
  · exact if_neg hquote
  · exact if_neg hmark

/-- A class of characters without openings. -/
theorem isOpening_eq_false {c : Char} (p : Char → Bool)
    (hp : p '/' = false ∧ p '"' = false ∧ p '\'' = false)
    (hlayout : p '\n' = false ∧ p ' ' = false ∧ p '\t' = false ∧ p '\r' = false)
    (h : p c = true) : isOpening c = false := by
  simp only [isOpening, Bool.or_eq_false_iff, beq_eq_false_iff_ne]
  refine ⟨⟨⟨?_, ?_⟩, ?_⟩, ?_⟩
  · rintro rfl
    exact absurd (hp.1.symm.trans h) Bool.false_ne_true
  · cases hc : isLayout c with
    | false => rfl
    | true =>
        have hmore : BeginsLayout [c] := fun b hb => by cases hb; exact hc
        exact absurd ((hmore.head_eq_false p hlayout c rfl).symm.trans h) Bool.false_ne_true
  · rintro rfl
    exact absurd (hp.2.1.symm.trans h) Bool.false_ne_true
  · rintro rfl
    exact absurd (hp.2.2.symm.trans h) Bool.false_ne_true

/-- A word with layout behind it begins no print call. -/
theorem printCall_word_eq_none {c : Char} {body more : List Char}
    (hword : ∀ b ∈ c :: body, isIdentifierPart b = true) (hmore : BeginsLayout more) :
    printCall c (body ++ more) = none := by
  unfold printCall
  refine if_neg fun hpath => ?_
  obtain ⟨rest, hrest⟩ := List.isPrefixOf_iff_prefix.mp hpath
  have htail : (c :: body ++ more).dropWhile isIdentifierPart = more :=
    dropWhile_run hword (hmore.head_eq_false _ (by decide))
  have hpoint : (printPath ++ rest).dropWhile isIdentifierPart = '.' :: ("out.".toList ++ rest) :=
    rfl
  rw [List.cons_append, ← hrest, hpoint] at htail
  exact absurd (hmore '.' (by rw [← htail]; rfl)) (by decide)

theorem standsAlone_of_word {c : Char} {rest : List Char} {kind : TokenKind} {n : Nat}
    (h : word c rest = some (kind, n))
    (hplain : kind = .identifier → keywords.lookup (String.ofList (c :: rest.take n)) = none) :
    StandsAlone kind (c :: rest.take n) := by
  unfold word at h
  split at h
  · next hc =>
      obtain ⟨run, tail, rfl, hrun, hbody, -⟩ := exists_run isIdentifierPart rest
      simp only [hrun, List.drop_left, Option.some.injEq, Prod.mk.injEq] at h
      obtain ⟨hkind, rfl⟩ := h
      rw [List.take_left] at hplain ⊢
      have hfound : kind = (keywords.lookup (String.ofList (c :: run))).getD .identifier := by
        split at hkind
        · exact hkind.symm
        · rw [hplain hkind.symm]
          exact hkind.symm
      have hall : ∀ b ∈ c :: run, isIdentifierPart b = true :=
        List.forall_mem_cons.mpr ⟨by rw [isIdentifierPart, hc]; rfl, hbody⟩
      refine ⟨c, run, rfl, fun more hmore => ?_⟩
      refine read?_of_rule [comment, newline, blanks, stringLiteral, charLiteral, printCall] word
        [number, symbol, unknown] rfl ?_ ?_
      · intro other hother
        rcases List.mem_append.mp (show other ∈ [comment, newline, blanks, stringLiteral,
          charLiteral] ++ [printCall] from hother) with hearly | hlate
        · have hopening := isOpening_eq_false isIdentifierStart (by decide) (by decide) hc
          exact early_rules_none _ hopening other hearly
        · rw [List.mem_singleton.mp hlate]
          exact printCall_word_eq_none hall hmore
      · rw [word, if_pos hc]
        simp only [hmore.takeWhile_run hbody (by decide), List.drop_left, hmore.endsWord, if_true]
        rw [hfound]
  · simp at h

theorem printMethods_words :
    ∀ method ∈ printMethods, method.toList.all isIdentifierPart = true := by
  decide

theorem standsAlone_of_printCall {c : Char} {rest : List Char} {kind : TokenKind} {n : Nat}
    (h : printCall c rest = some (kind, n)) : StandsAlone kind (c :: rest.take n) := by
  have hspelled := spelled_of_printCall h
  obtain rfl : kind = .printCall := by
    unfold printCall at h
    split at h
    · dsimp only at h
      split at h
      · cases h
        rfl
      · simp at h
    · simp at h
  obtain ⟨method, hmethod, hlexeme⟩ := hspelled.exists_method
  rw [hlexeme]
  have hall : ∀ b ∈ method.toList, isIdentifierPart b = true :=
    List.all_eq_true.mp (printMethods_words method hmethod)
  refine ⟨'S', "ystem.out.".toList ++ method.toList, rfl, fun more hmore => ?_⟩
  refine read?_of_rule [comment, newline, blanks, stringLiteral, charLiteral] printCall
    [word, number, symbol, unknown] rfl (early_rules_none _ (by decide)) ?_
  have hsplit : 'S' :: ("ystem.out.".toList ++ method.toList ++ more) =
      printPath ++ (method.toList ++ more) := by
    rw [List.append_assoc]
    rfl
  have hprefix : printPath.isPrefixOf (printPath ++ (method.toList ++ more)) = true :=
    List.isPrefixOf_iff_prefix.mpr (List.prefix_append _ _)
  rw [printCall, hsplit, if_pos hprefix]
  simp only [List.drop_left, hmore.takeWhile_run hall (by decide), String.ofList_toList,
    List.contains_iff_mem.mpr hmethod, hmore.endsWord, Bool.and_self, if_true, List.length_append]
  rfl

theorem Quotable.unbroken {quote : Char} {body : List Char} (h : Quotable quote body) :
    '\n' ∉ body := by
  induction h with
  | nil => simp
  | plain _ _ hc _ ih => simp [ih, hc.symm]
  | escape hc _ ih => simp [ih, hc.symm]

theorem stringEnd_quotable {body : List Char} (h : Quotable '"' body) (rest : List Char) :
    stringEnd (body ++ '"' :: rest) = some (body.length + 1) := by
  induction h with
  | nil => rfl
  | @plain c body hquote hslash hnewline _ ih =>
      rw [List.cons_append, stringEnd, ih]
      · rfl
      · exact fun hc => hquote hc
      · exact fun hc => hnewline hc
      · exact fun hc => absurd hc hslash
      · exact fun _ hc => absurd hc hslash
      · exact fun _ _ hc => absurd hc hslash
  | @escape c body hnewline _ ih =>
      rw [List.cons_append, List.cons_append, stringEnd, ih]
      · rfl
      · exact hnewline

theorem standsAlone_of_stringLiteral {c : Char} {rest : List Char} {kind : TokenKind} {n : Nat}
    (h : stringLiteral c rest = some (kind, n)) : StandsAlone kind (c :: rest.take n) := by
  unfold stringLiteral at h
  split at h
  · next hc =>
      obtain ⟨m, hm, hkind⟩ := Option.map_eq_some_iff.mp h
      obtain ⟨rfl, rfl⟩ := Prod.mk.inj hkind
      obtain ⟨body, tail, rfl, rfl, hbody⟩ := stringEnd_eq_some hm
      subst hc
      have hlexeme : (body ++ '"' :: tail).take (body.length + 1) = body ++ ['"'] := by
        rw [List.append_cons, List.take_left' (by simp)]
      rw [hlexeme]
      refine ⟨'"', body ++ ['"'], rfl, fun more _ => ?_⟩
      refine read?_of_rule [comment, newline, blanks] stringLiteral
        [charLiteral, printCall, word, number, symbol, unknown] rfl ?_ ?_
      · intro other hother
        simp only [List.mem_cons, List.not_mem_nil, or_false] at hother
        rcases hother with rfl | rfl | rfl
        · exact comment_eq_none _ (by decide)
        · rfl
        · rfl
      · rw [stringLiteral, if_pos rfl, List.append_assoc, List.singleton_append,
          stringEnd_quotable hbody, List.length_append]
        rfl
  · simp at h

/-- The text of a character literal ends where it ends in front of any other text. -/
theorem charEnd_take {rest : List Char} {n : Nat} (h : charEnd rest = some n) (more : List Char) :
    charEnd (rest.take n ++ more) = some (rest.take n).length := by
  unfold charEnd at h
  split at h
  · split at h
    · simp at h
    · next hc =>
        obtain rfl : 3 = n := by simpa using h
        simp [charEnd, hc]
  · next c tail hescape =>
      split at h
      · simp at h
      · next hc =>
          obtain rfl : 2 = n := by simpa using h
          have hslash : c ≠ '\\' := by
            simp only [Bool.or_eq_true, decide_eq_true_eq, not_or] at hc
            exact hc.1.2
          rw [show List.take 2 (c :: '\'' :: tail) ++ more = c :: '\'' :: more from rfl, charEnd,
            if_neg hc]
          · rfl
          · exact fun _ hbackslash _ => absurd hbackslash hslash
  · simp at h

theorem standsAlone_of_charLiteral {c : Char} {rest : List Char} {kind : TokenKind} {n : Nat}
    (h : charLiteral c rest = some (kind, n)) : StandsAlone kind (c :: rest.take n) := by
  unfold charLiteral at h
  split at h
  · next hc =>
      obtain ⟨m, hm, hkind⟩ := Option.map_eq_some_iff.mp h
      obtain ⟨rfl, rfl⟩ := Prod.mk.inj hkind
      subst hc
      refine ⟨'\'', rest.take m, rfl, fun more _ => ?_⟩
      refine read?_of_rule [comment, newline, blanks, stringLiteral] charLiteral
        [printCall, word, number, symbol, unknown] rfl ?_ ?_
      · intro other hother
        simp only [List.mem_cons, List.not_mem_nil, or_false] at hother
        rcases hother with rfl | rfl | rfl | rfl
        · exact comment_eq_none _ (by decide)
        · rfl
        · rfl
        · rfl
      · rw [charLiteral, if_pos rfl, charEnd_take hm]
        rfl
  · simp at h

theorem symbols_first : ∀ entry ∈ symbols,
    symbols.find? (fun other => other.1.toList.isPrefixOf entry.1.toList) = some entry := by
  decide

theorem symbols_without_layout : ∀ entry ∈ symbols,
    entry.1.toList.all (fun c => !isLayout c) = true := by
  decide

/-- A word without layout that begins a text with layout in it ends in front of the layout. -/
theorem isPrefixOf_append {word : List Char} (hword : word.all (fun c => !isLayout c) = true)
    (text : List Char) {more : List Char} (hmore : BeginsLayout more) :
    word.isPrefixOf (text ++ more) = word.isPrefixOf text := by
  rw [Bool.eq_iff_iff, List.isPrefixOf_iff_prefix, List.isPrefixOf_iff_prefix]
  refine ⟨fun h => ?_, fun h => h.trans (List.prefix_append _ _)⟩
  obtain ⟨rest, hrest⟩ := h
  rcases List.append_eq_append_iff.mp hrest with ⟨behind, htext, -⟩ | ⟨behind, hsplit, hlayout⟩
  · exact ⟨behind, htext.symm⟩
  · cases behind with
    | nil =>
        rw [List.append_nil] at hsplit
        rw [hsplit]
    | cons c behind =>
        have hc : isLayout c = true := hmore c (by rw [hlayout]; rfl)
        have hnot := List.all_eq_true.mp hword c (by rw [hsplit]; simp)
        simp [hc] at hnot

theorem symbols_open_plain : ∀ entry ∈ symbols,
    entry.1.toList.head?.all (fun c => c != 'S' && !isLayout c) = true ∧
      (entry.1.toList.head? = some '/' →
        entry.1.toList.tail = [] ∨ entry.1.toList.tail = ['=']) := by
  decide

/-- A slash with an equals sign or layout behind it begins no comment. -/
theorem comment_slash_eq_none {body more : List Char} (hbody : body = [] ∨ body = ['='])
    (hmore : BeginsLayout more) : comment '/' (body ++ more) = none := by
  rcases hbody with rfl | rfl
  · have hslash := hmore.head_eq_false (· == '/') (by decide)
    have hstar := hmore.head_eq_false (· == '*') (by decide)
    cases more with
    | nil => rfl
    | cons c rest =>
        unfold comment
        split
        · next heq =>
            rw [(List.cons.inj heq).1] at hslash
            exact absurd (hslash '/' rfl) (by decide)
        · next heq =>
            rw [(List.cons.inj heq).1] at hstar
            exact absurd (hstar '*' rfl) (by decide)
        · rfl
  · rfl

theorem standsAlone_of_mem_symbols {text : String} {kind : TokenKind}
    (h : (text, kind) ∈ symbols) : StandsAlone kind text.toList := by
  obtain ⟨c, body, htext⟩ := List.exists_cons_of_ne_nil (symbols_ne_nil _ h)
  replace htext : text.toList = c :: body := htext
  obtain ⟨hquote, hmark, hstart, hdigit⟩ := head_of_mem_symbols _ h c (by simp only [htext]; rfl)
  obtain ⟨hplain, hslash⟩ := symbols_open_plain _ h
  simp only [htext, List.head?_cons, Option.all_some, Bool.and_eq_true, bne_iff_ne, ne_eq,
    Bool.not_eq_true', List.tail_cons, Option.some.injEq] at hplain hslash
  obtain ⟨hletter, hlayout⟩ := hplain
  refine ⟨c, body, htext, fun more hmore => ?_⟩
  refine read?_of_rule [comment, newline, blanks, stringLiteral, charLiteral, printCall, word,
    number] symbol [unknown] rfl ?_ ?_
  · simp only [isLayout, Bool.or_eq_false_iff, beq_eq_false_iff_ne] at hlayout
    intro other hother
    simp only [List.mem_cons, List.not_mem_nil, or_false] at hother
    rcases hother with rfl | rfl | rfl | rfl | rfl | rfl | rfl | rfl
    · by_cases hc : c = '/'
      · subst hc
        exact comment_slash_eq_none (hslash rfl) hmore
      · exact comment_eq_none _ hc
    · exact if_neg hlayout.1
    · exact if_neg (by simp [hlayout.2])
    · exact if_neg hquote
    · exact if_neg hmark
    · refine if_neg fun hpath => ?_
      exact hletter (List.cons_prefix_cons.mp (List.isPrefixOf_iff_prefix.mp hpath)).1.symm
    · exact if_neg (by simp [hstart])
    · exact if_neg (by simp [hdigit])
  · have hfind : symbols.find? (fun other => other.1.toList.isPrefixOf (c :: (body ++ more))) =
        some (text, kind) := by
      rw [← symbols_first _ h, ← List.cons_append]
      refine List.find?_congr fun other hother => ?_
      rw [isPrefixOf_append (symbols_without_layout other hother) _ hmore, htext]
    rw [symbol, hfind, Option.map_some, ← String.length_toList, htext]
    rfl

theorem standsAlone_of_symbol {c : Char} {rest : List Char} {kind : TokenKind} {n : Nat}
    (h : symbol c rest = some (kind, n)) : StandsAlone kind (c :: rest.take n) := by
  have hkind : kind ∈ symbols.map Prod.snd := by
    obtain ⟨entry, hfind, hentry⟩ := Option.map_eq_some_iff.mp h
    obtain ⟨rfl, -⟩ := Prod.mk.inj hentry
    exact List.mem_map_of_mem (List.mem_of_find?_eq_some hfind)
  obtain ⟨text, hmem, htext⟩ := (spelled_of_symbol h).mem_symbols hkind
  rw [← htext]
  exact standsAlone_of_mem_symbols hmem

inductive Fraction : List Char → Prop
  | none : Fraction []
  | some {digits : List Char} : digits ≠ [] → (∀ d ∈ digits, isDecimalDigit d = true) →
      Fraction ('.' :: digits)

inductive Exponent : List Char → Prop
  | none : Exponent []
  | some {mark : Char} {sign digits : List Char} : mark = 'e' ∨ mark = 'E' →
      sign = [] ∨ sign = ['+'] ∨ sign = ['-'] → digits ≠ [] →
      (∀ d ∈ digits, isDecimalDigit d = true) → Exponent (mark :: (sign ++ digits))

theorem digitRun_run {digits rest : List Char} (hdigits : ∀ d ∈ digits, isDecimalDigit d = true)
    (hrest : ∀ c ∈ rest.head?, isDecimalDigit c = false) :
    digitRun (digits ++ rest) = digits.length := by
  rw [digitRun, takeWhile_run hdigits hrest]

theorem exists_digits (text : List Char) :
    ∃ digits rest, text = digits ++ rest ∧ digitRun text = digits.length ∧
      (∀ d ∈ digits, isDecimalDigit d = true) ∧ ∀ c ∈ rest.head?, isDecimalDigit c = false := by
  obtain ⟨digits, rest, hsplit, hrun, hdigits, hrest⟩ := exists_run isDecimalDigit text
  exact ⟨digits, rest, hsplit, by rw [digitRun, hrun], hdigits, hrest⟩

theorem exists_sign (text : List Char) :
    ∃ sign rest, text = sign ++ rest ∧ signLength text = sign.length ∧
      (sign = [] ∨ sign = ['+'] ∨ sign = ['-']) := by
  unfold signLength
  split
  · exact ⟨['+'], _, rfl, rfl, .inr (.inl rfl)⟩
  · exact ⟨['-'], _, rfl, rfl, .inr (.inr rfl)⟩
  · exact ⟨[], _, rfl, rfl, .inl rfl⟩

theorem exists_exponent {text : List Char} {k : Nat} (h : exponentLength text = some k) :
    ∃ exponent rest, text = exponent ++ rest ∧ k = exponent.length ∧ Exponent exponent ∧
      exponent ≠ [] := by
  unfold exponentLength at h
  split at h
  · simp at h
  · next mark text =>
      obtain ⟨sign, behind, rfl, hlength, hsign⟩ := exists_sign text
      obtain ⟨digits, rest, rfl, hrun, hdigits, -⟩ := exists_digits behind
      simp only [hlength, List.drop_left, hrun] at h
      split at h
      · next hmark =>
          simp only [Bool.and_eq_true, Bool.or_eq_true, decide_eq_true_eq] at hmark
          obtain rfl := Option.some.inj h
          refine ⟨mark :: (sign ++ digits), rest, by simp, ?_, ?_, List.cons_ne_nil _ _⟩
          · rw [List.length_cons, List.length_append]
            omega
          · exact .some hmark.1 hsign (List.length_pos_iff.mp (Nat.pos_of_ne_zero hmark.2)) hdigits
      · simp at h

theorem exists_withExponent {front text : List Char} {n : Nat}
    (h : withExponent (front ++ text) front.length = some n) :
    ∃ exponent rest, text = exponent ++ rest ∧ n = (front ++ exponent).length ∧
      Exponent exponent := by
  have hplain : withExponent.plain (front ++ text) front.length = some n →
      ∃ exponent rest, text = exponent ++ rest ∧ n = (front ++ exponent).length ∧
        Exponent exponent := by
    intro hplain
    unfold withExponent.plain at hplain
    split at hplain
    · exact ⟨[], text, rfl, by simpa using hplain.symm, .none⟩
    · simp at hplain
  unfold withExponent at h
  rw [List.drop_left] at h
  split at h
  · next k hk =>
      split at h
      · obtain ⟨exponent, rest, rfl, rfl, hexponent, -⟩ := exists_exponent hk
        exact ⟨exponent, rest, rfl, by simpa using h.symm, hexponent⟩
      · exact hplain h
  · exact hplain h

/-- A number is digits, maybe with a fraction and an exponent. -/
theorem exists_number {c : Char} {rest : List Char} {kind : TokenKind} {n : Nat}
    (h : number c rest = some (kind, n)) :
    ∃ digits fraction exponent tail, rest = digits ++ fraction ++ exponent ++ tail ∧
      n = (digits ++ fraction ++ exponent).length ∧ kind = .number ∧ isDecimalDigit c = true ∧
      (∀ d ∈ digits, isDecimalDigit d = true) ∧ Fraction fraction ∧ Exponent exponent := by
  unfold number at h
  split at h
  · next hc =>
      obtain ⟨m, hm, hkind⟩ := Option.map_eq_some_iff.mp h
      obtain ⟨rfl, rfl⟩ := Prod.mk.inj hkind
      obtain ⟨digits, behind, rfl, hrun, hdigits, -⟩ := exists_digits rest
      rw [hrun, List.drop_left] at hm
      split at hm
      · next m' hfraction =>
          obtain rfl := Option.some.inj hm
          obtain ⟨k, hk, hexponent⟩ := Option.bind_eq_some_iff.mp hfraction
          unfold fractionLength at hk
          split at hk
          · next text =>
              obtain ⟨places, text, rfl, hplaces, hall, -⟩ := exists_digits text
              rw [hplaces] at hk
              split at hk
              · simp at hk
              · next hne =>
                  obtain rfl := Option.some.inj hk
                  have hfront : digits.length + (1 + places.length) =
                      (digits ++ '.' :: places).length := by
                    rw [List.length_append, List.length_cons, Nat.add_comm 1]
                  rw [hfront, show digits ++ '.' :: (places ++ text) =
                    (digits ++ '.' :: places) ++ text by simp] at hexponent
                  obtain ⟨exponent, tail, rfl, rfl, hexp⟩ := exists_withExponent hexponent
                  exact ⟨digits, '.' :: places, exponent, tail, by simp, rfl, rfl, hc, hdigits,
                    .some (List.length_pos_iff.mp (Nat.pos_of_ne_zero hne)) hall, hexp⟩
          · simp at hk
      · obtain ⟨exponent, tail, rfl, rfl, hexp⟩ := exists_withExponent hm
        exact ⟨digits, [], exponent, tail, by simp, by simp, rfl, hc, hdigits, .none, hexp⟩
  · simp at h

/-- Every decimal digit is a word character. -/
theorem isWord_of_isDecimalDigit {c : Char} (h : isDecimalDigit c = true) : isWord c = true := by
  have hcovered : ∀ digits ∈ decimalDigitRanges,
      wordRanges.any (fun word => word.1 ≤ digits.1 && digits.2 ≤ word.2) = true := by
    decide +kernel
  unfold isDecimalDigit at h
  unfold isWord
  split at h
  · next hascii =>
      rw [if_pos hascii, isIdentifierPart, h, Bool.or_true]
  · next hascii =>
      rw [if_neg hascii]
      obtain ⟨digits, hdigits, hc⟩ := List.any_eq_true.mp h
      obtain ⟨word, hword, hwithin⟩ := List.any_eq_true.mp (hcovered digits hdigits)
      simp only [Bool.and_eq_true, decide_eq_true_eq] at hc hwithin
      refine List.any_eq_true.mpr ⟨word, hword, ?_⟩
      simp only [Bool.and_eq_true, decide_eq_true_eq]
      exact ⟨hwithin.1.trans hc.1, hc.2.trans hwithin.2⟩

/-- No digit stands behind a word that ends. -/
theorem isDecimalDigit_of_endsWord {rest : List Char} (h : endsWord rest = true) :
    ∀ c ∈ rest.head?, isDecimalDigit c = false := by
  intro c hc
  by_contra hdigit
  have hword := isWord_of_isDecimalDigit (Bool.not_eq_false _ ▸ hdigit)
  rw [endsWord_iff.mp h c hc] at hword
  cases hword

theorem exponentLength_of {exponent more : List Char} (h : Exponent exponent)
    (hne : exponent ≠ []) (hmore : ∀ c ∈ more.head?, isDecimalDigit c = false) :
    exponentLength (exponent ++ more) = some exponent.length := by
  cases h with
  | none => exact absurd rfl hne
  | @some mark sign digits hmark hsign hdigits hall =>
      have hlength : signLength (sign ++ (digits ++ more)) = sign.length := by
        rcases hsign with rfl | rfl | rfl
        · cases digits with
          | nil => exact absurd rfl hdigits
          | cons d digits =>
              have hd := hall d (List.mem_cons_self ..)
              unfold signLength
              split
              · next heq =>
                  rw [(List.cons.inj heq).1] at hd
                  exact absurd hd (by decide)
              · next heq =>
                  rw [(List.cons.inj heq).1] at hd
                  exact absurd hd (by decide)
              · rfl
        · rfl
        · rfl
      have hrun := digitRun_run hall hmore
      rw [List.cons_append, List.append_assoc, exponentLength]
      simp only [hlength, List.drop_left, hrun]
      rw [if_pos (by simpa [hdigits] using hmark), List.length_cons, List.length_append]
      congr 1
      omega

theorem withExponent_of (front : List Char) {exponent more : List Char} (h : Exponent exponent)
    (hmore : endsWord more = true) :
    withExponent (front ++ (exponent ++ more)) front.length =
      some (front ++ exponent).length := by
  have hends : endsWord ((front ++ (exponent ++ more)).drop (front.length + exponent.length)) =
      true := by
    rwa [← List.append_assoc, ← List.length_append, List.drop_left]
  rw [withExponent, List.drop_left, List.length_append]
  by_cases hne : exponent = []
  · subst hne
    have hnone : exponentLength more = none := by
      cases more with
      | nil => rfl
      | cons c rest =>
          have hword := endsWord_iff.mp hmore c rfl
          have hmark : ¬ (c = 'e' ∨ c = 'E') := by
            rintro (rfl | rfl)
            · exact absurd hword (by decide)
            · exact absurd hword (by decide)
          simp [exponentLength, hmark]
    rw [List.nil_append, hnone]
    dsimp only
    rw [withExponent.plain]
    exact if_pos hends
  · rw [exponentLength_of h hne (isDecimalDigit_of_endsWord hmore)]
    dsimp only
    exact if_pos hends

theorem fractionLength_of {fraction rest : List Char} (h : Fraction fraction) (hne : fraction ≠ [])
    (hrest : ∀ c ∈ rest.head?, isDecimalDigit c = false) :
    fractionLength (fraction ++ rest) = some fraction.length := by
  cases h with
  | none => exact absurd rfl hne
  | @some digits hdigits hall =>
      rw [List.cons_append, fractionLength, digitRun_run hall hrest,
        if_neg (by simpa using hdigits), List.length_cons, Nat.add_comm]

theorem identifierStart_eq_false_of_digit {c : Char} (h : isDecimalDigit c = true) :
    isIdentifierStart c = false := by
  cases hstart : isIdentifierStart c with
  | false => rfl
  | true =>
      simp only [isIdentifierStart, isAsciiLetter, Bool.or_eq_true, Bool.and_eq_true,
        decide_eq_true_eq, beq_iff_eq, Char.le_def, UInt32.le_iff_toNat_le] at hstart
      have hcode : ∀ {k : Nat}, c.val.toNat ≤ k → c.toNat ≤ k := id
      rcases hstart with (hstart | hstart) | rfl
      · have hsmall : c.toNat < 128 := Nat.lt_of_le_of_lt (hcode hstart.2) (by decide)
        rw [isDecimalDigit, if_pos hsmall, isAsciiDigit, Bool.and_eq_true, decide_eq_true_eq,
          decide_eq_true_eq, Char.le_def, Char.le_def, UInt32.le_iff_toNat_le,
          UInt32.le_iff_toNat_le] at h
        exact absurd (hstart.1.trans h.2) (by decide)
      · have hsmall : c.toNat < 128 := Nat.lt_of_le_of_lt (hcode hstart.2) (by decide)
        rw [isDecimalDigit, if_pos hsmall, isAsciiDigit, Bool.and_eq_true, decide_eq_true_eq,
          decide_eq_true_eq, Char.le_def, Char.le_def, UInt32.le_iff_toNat_le,
          UInt32.le_iff_toNat_le] at h
        exact absurd (hstart.1.trans h.2) (by decide)
      · exact absurd h (by decide)

/-- A number that ends at a word boundary is read as a whole, unless it has digits only and a point
stands behind them. -/
theorem number_of_parts {c : Char} {digits fraction exponent more : List Char}
    (hc : isDecimalDigit c = true) (hdigits : ∀ d ∈ digits, isDecimalDigit d = true)
    (hfraction : Fraction fraction) (hexponent : Exponent exponent) (hmore : endsWord more = true)
    (hpoint : '.' ∈ more.head? → fraction ++ exponent ≠ []) :
    number c (digits ++ fraction ++ exponent ++ more) =
      some (.number, (digits ++ fraction ++ exponent).length) := by
  have hhead : ∀ b ∈ (exponent ++ more).head?, isDecimalDigit b = false := by
    cases hexponent with
    | none => exact isDecimalDigit_of_endsWord hmore
    | some hmark _ _ _ =>
        intro b hb
        cases hb
        rcases hmark with rfl | rfl <;> decide
  have hend := withExponent_of (digits ++ fraction) hexponent hmore
  have htail : ∀ b ∈ (fraction ++ (exponent ++ more)).head?, isDecimalDigit b = false := by
    cases hfraction with
    | none => exact hhead
    | some _ _ =>
        intro b hb
        cases hb
        decide
  rw [number, if_pos hc]
  simp only [List.append_assoc, digitRun_run hdigits htail, List.drop_left]
  by_cases hne : fraction = []
  · subst hne
    have hnone : fractionLength (exponent ++ more) = none := by
      cases hexponent with
      | none =>
          unfold fractionLength
          split
          · next heq => exact absurd rfl (hpoint (by rw [← List.nil_append more, heq]; rfl))
          · rfl
      | some hmark _ _ _ => rcases hmark with rfl | rfl <;> rfl
    rw [List.append_nil] at hend
    rw [List.nil_append, hnone]
    simp only [Option.bind_none, hend]
    rfl
  · rw [fractionLength_of hfraction hne hhead, Option.bind_some, ← List.length_append]
    rw [List.append_assoc] at hend
    rw [hend]
    simp only [List.append_assoc]
    rfl

/-- A number stands alone, however its source went on behind it. -/
theorem standsAlone_of_number {c : Char} {rest : List Char} {kind : TokenKind} {n : Nat}
    (h : number c rest = some (kind, n)) : StandsAlone kind (c :: rest.take n) := by
  obtain ⟨digits, fraction, exponent, tail, rfl, rfl, rfl, hc, hdigits, hfraction, hexponent⟩ :=
    exists_number h
  rw [List.take_left]
  refine ⟨c, _, rfl, fun more hmore => ?_⟩
  have hopening := isOpening_eq_false isDecimalDigit (by decide) (by decide) hc
  have hletter : ∀ {text : List Char}, ¬ printPath.isPrefixOf (c :: text) = true := by
    intro text hpath
    rw [← (List.cons_prefix_cons.mp (List.isPrefixOf_iff_prefix.mp hpath)).1] at hc
    exact absurd hc (by decide)
  refine read?_of_rule [comment, newline, blanks, stringLiteral, charLiteral, printCall, word]
    number [symbol, unknown] rfl ?_ ?_
  · intro other hother
    rcases List.mem_append.mp (show other ∈ [comment, newline, blanks, stringLiteral,
      charLiteral] ++ [printCall, word] from hother) with hearly | hlate
    · exact early_rules_none _ hopening other hearly
    · simp only [List.mem_cons, List.not_mem_nil, or_false] at hlate
      rcases hlate with rfl | rfl
      · exact if_neg hletter
      · exact if_neg (by simp [identifierStart_eq_false_of_digit hc])
  · refine number_of_parts hc hdigits hfraction hexponent hmore.endsWord fun hpoint => ?_
    exact absurd (hmore '.' hpoint) (by decide)

theorem kind_of_comment {c : Char} {rest : List Char} {kind : TokenKind} {n : Nat}
    (h : comment c rest = some (kind, n)) : kind = .comment := by
  unfold comment at h
  split at h
  · cases h
    rfl
  · obtain ⟨m, -, hkind⟩ := Option.map_eq_some_iff.mp h
    cases hkind
    rfl
  · simp at h

theorem kind_of_newline {c : Char} {rest : List Char} {kind : TokenKind} {n : Nat}
    (h : newline c rest = some (kind, n)) : kind = .newline := by
  unfold newline at h
  split at h
  · cases h
    rfl
  · simp at h

theorem kind_of_blanks {c : Char} {rest : List Char} {kind : TokenKind} {n : Nat}
    (h : blanks c rest = some (kind, n)) : kind = .whitespace := by
  unfold blanks at h
  split at h
  · cases h
    rfl
  · simp at h

/-- A kept lexeme stands alone if it is no error and no keyword that is cut off. -/
theorem standsAlone_of_read? {c : Char} {rest : List Char} {kind : TokenKind} {n : Nat}
    (h : read? c rest = some (kind, n)) (hkept : kind.isSkipped = false) (herror : kind ≠ .error)
    (hplain : kind = .identifier → keywords.lookup (String.ofList (c :: rest.take n)) = none) :
    StandsAlone kind (c :: rest.take n) := by
  have hskipped : kind ≠ .comment ∧ kind ≠ .newline ∧ kind ≠ .whitespace := by
    refine ⟨?_, ?_, ?_⟩ <;> (rintro rfl; exact absurd hkept (by decide))
  unfold read? rules at h
  rcases findSome?_rules h with h | ⟨-, h⟩
  · exact absurd (kind_of_comment h) hskipped.1
  rcases findSome?_rules h with h | ⟨-, h⟩
  · exact absurd (kind_of_newline h) hskipped.2.1
  rcases findSome?_rules h with h | ⟨-, h⟩
  · exact absurd (kind_of_blanks h) hskipped.2.2
  rcases findSome?_rules h with h | ⟨-, h⟩
  · exact standsAlone_of_stringLiteral h
  rcases findSome?_rules h with h | ⟨-, h⟩
  · exact standsAlone_of_charLiteral h
  rcases findSome?_rules h with h | ⟨-, h⟩
  · exact standsAlone_of_printCall h
  rcases findSome?_rules h with h | ⟨-, h⟩
  · exact standsAlone_of_word h hplain
  rcases findSome?_rules h with h | ⟨-, h⟩
  · exact standsAlone_of_number h
  rcases findSome?_rules h with h | ⟨-, h⟩
  · exact standsAlone_of_symbol h
  rcases findSome?_rules h with h | ⟨-, h⟩
  · unfold unknown at h
    split at h
    · simp at h
    · cases h
      exact absurd rfl herror
  · simp at h

end Lexeme

end MiniJava
