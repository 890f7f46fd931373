import MiniJava.Proofs.Syntax.Moved
import MiniJava.Proofs.Token.MaximalMunch
import MiniJava.Proofs.Token.Relayout

/-!
# Lines are read on their own

Only a block comment goes on behind the end of a line. In front of a newline every other lexeme is
read as at the end of the text, also an unknown character and the quote of a string without an end.
So the table of a text with further lines behind it is the table of the text and, further down, the
table of these lines, unless a block comment is left open.
-/

namespace MiniJava

open Text

namespace Lexeme

/-- A fraction is part of its text. -/
theorem length_of_fraction {text : List Char} {n : Nat} (h : fractionLength text = some n) :
    n ≤ text.length := by
  unfold fractionLength at h
  split at h
  · next rest =>
      split at h
      · simp at h
      · have hle : digitRun rest ≤ rest.length := (List.takeWhile_prefix _).length_le
        rw [← Option.some.inj h, List.length_cons]
        omega
  · simp at h

theorem takeWhile_append (text : List Char) {p : Char → Bool} {more : List Char}
    (hmore : ∀ c ∈ more.head?, p c = false) :
    (text ++ more).takeWhile p = text.takeWhile p := by
  obtain ⟨run, tail, rfl, hrun, hall, htail⟩ := exists_run p text
  rw [hrun, List.append_assoc]
  refine takeWhile_run hall fun b hb => ?_
  cases tail with
  | nil => exact hmore b hb
  | cons c tail => exact htail b hb

section Layout

variable (text : List Char) {more : List Char} (hmore : BeginsLayout more)
include hmore

theorem endsWord_append : endsWord (text ++ more) = endsWord text := by
  cases text with
  | nil => exact hmore.endsWord
  | cons c text => rfl

theorem digitRun_append : digitRun (text ++ more) = digitRun text := by
  rw [digitRun, digitRun, takeWhile_append text (hmore.head_eq_false _ (by decide))]

theorem fractionLength_append : fractionLength (text ++ more) = fractionLength text := by
  cases text with
  | nil =>
      have hpoint := hmore.head_eq_false (· == '.') (by decide)
      unfold fractionLength
      split
      · next heq => simpa using hpoint '.' (by rw [← List.nil_append more, heq]; rfl)
      · rfl
  | cons c text =>
      by_cases hc : c = '.'
      · subst hc
        rw [List.cons_append, fractionLength, fractionLength, digitRun_append text hmore]
      · have hnone : ∀ rest : List Char, fractionLength (c :: rest) = none := by
          intro rest
          unfold fractionLength
          split
          · next heq => exact absurd (List.cons.inj heq).1 hc
          · rfl
        rw [List.cons_append, hnone, hnone]

theorem signLength_append : signLength (text ++ more) = signLength text := by
  cases text with
  | nil =>
      cases more with
      | nil => rfl
      | cons c rest =>
          rcases layout_cases (hmore c rfl) with rfl | rfl | rfl | rfl <;> rfl
  | cons c text =>
      unfold signLength
      split <;> split <;> simp_all

theorem exponentLength_append : exponentLength (text ++ more) = exponentLength text := by
  cases text with
  | nil =>
      cases more with
      | nil => rfl
      | cons c rest =>
          have hmark := hmore.head_eq_false (fun c => c = 'e' || c = 'E') (by decide) c rfl
          simp [exponentLength, hmark]
  | cons c text =>
      obtain ⟨sign, behind, hsplit, hsign, -⟩ := exists_sign text
      have hle : signLength text ≤ text.length := by rw [hsign, hsplit, List.length_append]; omega
      rw [List.cons_append, exponentLength, exponentLength, signLength_append text hmore,
        List.drop_append_of_le_length hle, digitRun_append _ hmore]

theorem withExponent_append {n : Nat} (hn : n ≤ text.length) :
    withExponent (text ++ more) n = withExponent text n := by
  have hplain : withExponent.plain (text ++ more) n = withExponent.plain text n := by
    rw [withExponent.plain, withExponent.plain, List.drop_append_of_le_length hn,
      endsWord_append _ hmore]
  rw [withExponent, withExponent, hplain, List.drop_append_of_le_length hn,
    exponentLength_append _ hmore]
  cases hexponent : exponentLength (text.drop n) with
  | none => rfl
  | some k =>
      obtain ⟨exponent, rest, hsplit, hk, -⟩ := exists_exponent hexponent
      have hlength : text.length - n = exponent.length + rest.length := by
        rw [← List.length_drop, hsplit, List.length_append]
      dsimp only
      rw [List.drop_append_of_le_length (by omega), endsWord_append _ hmore]

theorem number_append (c : Char) : number c (text ++ more) = number c text := by
  have hle : digitRun text ≤ text.length := (List.takeWhile_prefix _).length_le
  unfold number
  split
  · simp only [digitRun_append text hmore, List.drop_append_of_le_length hle,
      fractionLength_append _ hmore, withExponent_append text hmore hle]
    cases hfraction : fractionLength (text.drop (digitRun text)) with
    | none => rfl
    | some k =>
        have hk := length_of_fraction hfraction
        rw [List.length_drop] at hk
        rw [Option.bind_some, Option.bind_some, withExponent_append text hmore (by omega)]
  · rfl

theorem word_append (c : Char) : word c (text ++ more) = word c text := by
  unfold word
  split
  · have hrun := takeWhile_append text (hmore.head_eq_false isIdentifierPart (by decide))
    have hle : (text.takeWhile isIdentifierPart).length ≤ text.length :=
      (List.takeWhile_prefix _).length_le
    simp only [hrun, List.drop_append_of_le_length hle, endsWord_append _ hmore]
  · rfl

theorem printCall_append (c : Char) : printCall c (text ++ more) = printCall c text := by
  have hplain : printPath.all (fun c => !isLayout c) = true := by decide
  have hpath := isPrefixOf_append hplain (c :: text) hmore
  rw [List.cons_append] at hpath
  unfold printCall
  rw [hpath]
  split
  · next hprefix =>
      have hle : printPath.length ≤ (c :: text).length :=
        (List.isPrefixOf_iff_prefix.mp hprefix).length_le
      rw [← List.cons_append, List.drop_append_of_le_length hle]
      generalize (c :: text).drop printPath.length = tail
      have hrun := takeWhile_append tail (hmore.head_eq_false isIdentifierPart (by decide))
      have hle : (tail.takeWhile isIdentifierPart).length ≤ tail.length :=
        (List.takeWhile_prefix _).length_le
      simp only [hrun, List.drop_append_of_le_length hle, endsWord_append _ hmore]
  · rfl

theorem symbol_append (c : Char) : symbol c (text ++ more) = symbol c text := by
  unfold symbol
  congr 1
  refine List.find?_congr fun entry hentry => ?_
  exact isPrefixOf_append (symbols_without_layout entry hentry) (c :: text) hmore

end Layout

section Newline

variable (text more : List Char)

theorem stringEnd_append : stringEnd (text ++ '\n' :: more) = stringEnd text := by
  fun_induction stringEnd text with
  | case1 => rfl
  | case2 rest => rfl
  | case3 rest => rfl
  | case4 => rfl
  | case5 rest => rfl
  | case6 c rest hc ih =>
      rw [List.cons_append, List.cons_append, stringEnd, ih]
      exact hc
  | case7 c rest hquote hnewline hlast hbreak hescape ih =>
      have hslash : c ≠ '\\' := by
        rintro rfl
        cases rest with
        | nil => exact hlast rfl rfl
        | cons d rest => exact hescape d rest rfl rfl
      rw [List.cons_append, stringEnd, ih]
      · exact hquote
      · exact hnewline
      · exact fun hc => absurd hc hslash
      · exact fun _ hc => absurd hc hslash
      · exact fun _ _ hc => absurd hc hslash

/-- What has no newline in it ends in front of the newline. -/
theorem exists_left_of_newline {text more lexeme tail : List Char}
    (h : text ++ '\n' :: more = lexeme ++ tail) (hlexeme : '\n' ∉ lexeme) :
    ∃ left, text = lexeme ++ left := by
  rcases List.append_eq_append_iff.mp h with ⟨front, rfl, hfront⟩ | ⟨left, htext, -⟩
  · cases front with
    | nil => exact ⟨[], by simp⟩
    | cons c front =>
        obtain ⟨rfl, -⟩ := List.cons.inj hfront
        simp at hlexeme
  · exact ⟨left, htext⟩

theorem charEnd_append_of_some {n : Nat} (h : charEnd text = some n) (rest : List Char) :
    charEnd (text ++ rest) = some n := by
  obtain ⟨body, tail, rfl, rfl, -⟩ := charEnd_eq_some h
  have htake : (body ++ '\'' :: tail).take (body.length + 1) = body ++ ['\''] := by
    rw [List.append_cons, List.take_left' (by simp)]
  have hend := charEnd_take h (tail ++ rest)
  rw [htake, List.length_append] at hend
  have hsplit : body ++ '\'' :: tail ++ rest = body ++ ['\''] ++ (tail ++ rest) := by simp
  rw [hsplit]
  exact hend

theorem charEnd_append : charEnd (text ++ '\n' :: more) = charEnd text := by
  cases htext : charEnd text with
  | some n => exact charEnd_append_of_some text htext _
  | none =>
      rw [Option.eq_none_iff_forall_ne_some]
      intro n h
      obtain ⟨body, tail, hsplit, rfl, hbody⟩ := charEnd_eq_some h
      rw [List.append_cons body] at hsplit
      have hline : '\n' ∉ body ++ ['\''] := by simp [hbody.unbroken]
      obtain ⟨left, rfl⟩ := exists_left_of_newline hsplit hline
      have hend := charEnd_take h left
      rw [hsplit, List.take_left' (by simp), htext] at hend
      cases hend

theorem blockEnd_append {n : Nat} (h : blockEnd text = some n) (rest : List Char) :
    blockEnd (text ++ rest) = some n := by
  fun_induction blockEnd text generalizing n with
  | case1 tail => exact h
  | case2 c tail hopen ih =>
      obtain ⟨m, hm, rfl⟩ := Option.map_eq_some_iff.mp h
      rw [List.cons_append, blockEnd, ih hm]
      · rfl
      · intro behind hc htail
        cases tail with
        | nil => simp [blockEnd] at hm
        | cons d tail =>
            obtain ⟨rfl, -⟩ := List.cons.inj htail
            exact hopen tail hc rfl
  | case3 => simp at h

def IsOpen (c : Char) (text : List Char) : Prop :=
  c = '/' ∧ '*' ∈ text.head? ∧ comment c text = none

theorem comment_append {c : Char} (h : ¬ IsOpen c text) :
    comment c (text ++ '\n' :: more) = comment c text := by
  by_cases hc : c = '/'
  · subst hc
    cases text with
    | nil => rfl
    | cons d text =>
        by_cases hline : d = '/'
        · subst hline
          rw [List.cons_append, comment, comment, takeWhile_append text (by simp)]
        by_cases hblock : d = '*'
        · subst hblock
          rw [List.cons_append, comment, comment]
          cases hend : blockEnd text with
          | none => exact absurd ⟨rfl, rfl, by rw [comment, hend]; rfl⟩ h
          | some n => rw [blockEnd_append text hend]
        have hnone (rest : List Char) : comment '/' (d :: rest) = none := by
          unfold comment
          split
          · next heq => exact absurd (List.cons.inj heq).1 hline
          · next heq => exact absurd (List.cons.inj heq).1 hblock
          · rfl
        rw [List.cons_append, hnone, hnone]
  · rw [comment_eq_none _ hc, comment_eq_none _ hc]

/-- In front of a newline a lexeme is read as at the end of the text. -/
theorem read?_append {c : Char} (h : ¬ IsOpen c text) :
    read? c (text ++ '\n' :: more) = read? c text := by
  have hlayout : BeginsLayout ('\n' :: more) := fun b hb => by cases hb; rfl
  have hblanks : (text ++ '\n' :: more).takeWhile isBlank = text.takeWhile isBlank :=
    takeWhile_append text fun b hb => by cases hb; rfl
  simp only [read?, rules, List.findSome?_cons, comment_append text more h, newline, blanks,
    hblanks, stringLiteral, stringEnd_append, charLiteral, charEnd_append,
    printCall_append text hlayout, word_append text hlayout, number_append text hlayout,
    symbol_append text hlayout, unknown, List.findSome?_nil]

end Newline

theorem read?_open {c : Char} {text : List Char} (h : IsOpen c text) :
    read? c text = some (.arithmeticOperator, 0) := by
  obtain ⟨rfl, hstar, hnone⟩ := h
  obtain ⟨rest, rfl⟩ := List.head?_eq_some_iff.mp hstar
  refine read?_of_rule [comment, newline, blanks, stringLiteral, charLiteral, printCall, word,
    number] symbol [unknown] rfl ?_ rfl
  simp only [List.forall_mem_cons]
  exact ⟨hnone, rfl, rfl, rfl, rfl, rfl, rfl, rfl, by simp⟩

/-- A lexeme that begins with a star is kept. -/
theorem Spelled.kept_of_star {kind : TokenKind} {lexeme rest : List Char}
    (h : Spelled kind lexeme rest) (hstar : '*' ∈ lexeme.head?) : kind.isSkipped = false := by
  have hsymbols : ∀ entry ∈ symbols, entry.2.isSkipped = false := by decide
  cases h with
  | lineComment | blockComment | newline => simp at hstar
  | blanks hblank =>
      have hnot := hblank '*' (List.mem_of_head? hstar)
      simp [isBlank] at hnot
  | keyword hmem _ => exact (Lexeme.kind_of_mem_keywords _ hmem).1
  | symbol hmem => exact hsymbols _ hmem
  | _ => rfl

end Lexeme

namespace Position

/-- The position in the same column `n` lines further down. -/
def down (n : Nat) (p : Position) : Position := ⟨p.line + n, p.column⟩

theorem after_down (n : Nat) (p : Position) (c : Char) :
    (p.down n).after c = (p.after c).down n := by
  unfold after down
  split
  · rw [Nat.add_right_comm]
  · rfl

theorem advance_down (n : Nat) (p : Position) (text : List Char) :
    (p.down n).advance text = (p.advance text).down n := by
  induction text generalizing p with
  | nil => rfl
  | cons c text ih => rw [advance_cons, after_down, ih, advance_cons]

/-- Where the line behind a text begins. -/
theorem behind_newline (text : List Char) :
    (behind text).after '\n' = start.down (1 + text.count '\n') := by
  rw [behind, after, if_pos rfl, down, Nat.add_comm (1 + text.count '\n')]
  rfl

end Position

namespace Token

open Lexeme

/-- Further down a text is read as at the start. -/
theorem scan_down (n : Nat) (p : Position) (text : List Char) :
    scan (p.down n) text = movedTokens (Position.down n) (scan p text) := by
  induction p, text using scan_read_induction with
  | nil p => rw [scan_nil, scan_nil, movedTokens_nil]
  | cons p c rest kind m hread ih =>
      rw [scan_cons _ hread, scan_cons _ hread, movedTokens_cons, Position.advance_down, ih]
      rfl

/-- Somewhere a slash has a star right behind it, as where a block comment has no end. -/
def LeavesCommentOpen (tokens : List Token) : Prop :=
  ∃ slash ∈ tokens, slash.lexeme = "/" ∧ ∃ next ∈ tokens, '*' ∈ next.lexeme.toList.head? ∧
    next.position = ⟨slash.position.line, slash.position.column + 1⟩

theorem LeavesCommentOpen.mono {tokens others : List Token} (h : LeavesCommentOpen tokens)
    (hsubset : tokens ⊆ others) : LeavesCommentOpen others := by
  obtain ⟨slash, hslash, hlexeme, next, hnext, hstar, hposition⟩ := h
  exact ⟨slash, hsubset hslash, hlexeme, next, hsubset hnext, hstar, hposition⟩

theorem leavesCommentOpen_of_isOpen (p : Position) {c : Char} {rest : List Char}
    (h : IsOpen c rest) : LeavesCommentOpen (kept (scan p (c :: rest))) := by
  have hread := read?_open h
  obtain ⟨rfl, hstar, -⟩ := h
  obtain ⟨rest, rfl⟩ := List.head?_eq_some_iff.mp hstar
  obtain ⟨kind, n, hnext⟩ := exists_read? '*' rest
  have hkept := (spelled_of_read? hnext).kept_of_star rfl
  rw [scan_cons p hread, kept_cons_of_kept rfl]
  refine ⟨_, List.mem_cons_self, rfl, ⟨kind, String.ofList ('*' :: rest.take n), p.advance ['/']⟩,
    List.mem_cons_of_mem _ ?_, by rw [String.toList_ofList]; rfl, rfl⟩
  rw [List.drop_zero, List.take_zero, scan_cons _ hnext, kept_cons_of_kept hkept]
  exact List.mem_cons_self

/-- Behind a text that leaves no comment open reading goes on in the next line. -/
theorem scan_append_newline (p : Position) (text more : List Char)
    (h : ¬ LeavesCommentOpen (kept (scan p text))) :
    scan p (text ++ '\n' :: more) = scan p text ++
      ⟨.newline, "\n", p.advance text⟩ :: scan ((p.advance text).after '\n') more := by
  induction p, text using scan_read_induction with
  | nil p =>
      rw [List.nil_append, scan_cons p (read?_newline more), scan_nil]
      rfl
  | cons p c rest kind n hread ih =>
      have hclosed : ¬ IsOpen c rest := fun hopen => h (leavesCommentOpen_of_isOpen p hopen)
      have hwithin := (longest_of_read? hread).within
      have hagain := (read?_append rest more hclosed).trans hread
      have hrest : ¬ LeavesCommentOpen
          (kept (scan (p.advance (c :: rest.take n)) (rest.drop n))) := by
        intro hopen
        rw [scan_cons p hread] at h
        exact h (hopen.mono ((List.sublist_cons_self _ _).filter _).subset)
      have hbehind : (p.advance (c :: rest.take n)).advance (rest.drop n) =
          p.advance (c :: rest) := by
        rw [← Position.advance_append, List.cons_append, List.take_append_drop]
      rw [List.cons_append, scan_cons p hagain, scan_cons p hread,
        List.take_append_of_le_length hwithin, List.drop_append_of_le_length hwithin, ih hrest,
        hbehind, List.cons_append]

/-- A text with further lines behind it has its own table and, further down, theirs, unless it
leaves a block comment open. -/
theorem tokenize_append_newline (text lines : String)
    (h : ¬ LeavesCommentOpen (tokenize text)) :
    tokenize (text ++ "\n" ++ lines) = tokenize text ++
      movedTokens (Position.down (1 + text.toList.count '\n')) (tokenize lines) := by
  have hsource : (text ++ "\n" ++ lines).toList = text.toList ++ '\n' :: lines.toList := by simp
  have hline : (Position.start.advance text.toList).after '\n' =
      Position.start.down (1 + text.toList.count '\n') := by
    rw [← Position.behind_newline, ← Position.behind_nil, ← Position.behind_append,
      List.nil_append]
  have hmoved (n : Nat) (tokens : List Token) :
      kept (movedTokens (Position.down n) tokens) = movedTokens (Position.down n) (kept tokens) :=
    List.filter_map
  have happend (front back : List Token) : kept (front ++ back) = kept front ++ kept back :=
    List.filter_append ..
  change kept (scan .start (text ++ "\n" ++ lines).toList) =
    kept (scan .start text.toList) ++ movedTokens _ (kept (scan .start lines.toList))
  rw [hsource, scan_append_newline .start text.toList lines.toList h, happend,
    kept_cons_of_skipped rfl, hline, scan_down, hmoved]

/-- Neither the string without an end nor the star in front of a slash reaches over the line. -/
theorem tokenize_append_newline_unclosed :
    ¬ LeavesCommentOpen (tokenize "a /\n* \"b") ∧
      tokenize ("a /\n* \"b" ++ "\n" ++ "c\" */ d") = tokenize "a /\n* \"b" ++
        movedTokens (Position.down 2) (tokenize "c\" */ d") := by
  have hclosed : ¬ LeavesCommentOpen (tokenize "a /\n* \"b") := by
    unfold LeavesCommentOpen
    decide +kernel
  exact ⟨hclosed, tokenize_append_newline _ _ hclosed⟩

end Token

end MiniJava
