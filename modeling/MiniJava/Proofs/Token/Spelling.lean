import Mathlib.Data.List.Infix
import Mathlib.Data.List.TakeWhile
import MiniJava.Token.Table

/-!
# How lexemes are spelled

What a lexeme of each kind looks like, and what may stand behind it. Reading a lexeme is described
here once for all rules: whatever `Lexeme.read?` finds is spelled like its kind, and on every text
that is not empty it finds something.
-/

namespace MiniJava.Lexeme

open Text

/-- The text of a literal between two quotes: a backslash takes the next character with it, and
there is no newline and no other quote. -/
inductive Quotable (quote : Char) : List Char → Prop
  | nil : Quotable quote []
  | plain {c : Char} {rest : List Char} : c ≠ quote → c ≠ '\\' → c ≠ '\n' →
      Quotable quote rest → Quotable quote (c :: rest)
  | escape {c : Char} {rest : List Char} : c ≠ '\n' → Quotable quote rest →
      Quotable quote ('\\' :: c :: rest)

/-- `Spelled kind lexeme rest` says that `lexeme` may be read as a lexeme of that kind in front of
`rest`. -/
inductive Spelled : TokenKind → List Char → List Char → Prop
  | lineComment {body rest : List Char} : '\n' ∉ body → (∀ c ∈ rest.head?, c = '\n') →
      Spelled .comment ('/' :: '/' :: body) rest
  | blockComment {body rest : List Char} : ¬ ['*', '/'] <:+: body →
      Spelled .comment ('/' :: '*' :: (body ++ ['*', '/'])) rest
  | newline {rest : List Char} : Spelled .newline ['\n'] rest
  | blanks {c : Char} {body rest : List Char} : (∀ b ∈ c :: body, isBlank b = true) →
      Spelled .whitespace (c :: body) rest
  | stringLiteral {body rest : List Char} : Quotable '"' body →
      Spelled .stringLiteral ('"' :: (body ++ ['"'])) rest
  | charLiteral {body rest : List Char} : Quotable '\'' body →
      Spelled .charLiteral ('\'' :: (body ++ ['\''])) rest
  | printCall {method : String} {rest : List Char} : method ∈ printMethods →
      endsWord rest = true → Spelled .printCall (printPath ++ method.toList) rest
  | keyword {text : String} {kind : TokenKind} {rest : List Char} : (text, kind) ∈ keywords →
      endsWord rest = true → Spelled kind text.toList rest
  | identifier {c : Char} {body rest : List Char} : isIdentifierStart c = true →
      (∀ b ∈ body, isIdentifierPart b = true) → (∀ b ∈ rest.head?, isIdentifierPart b = false) →
      (endsWord rest = true → keywords.lookup (String.ofList (c :: body)) = none) →
      Spelled .identifier (c :: body) rest
  | number {c : Char} {body rest : List Char} : isDecimalDigit c = true →
      endsWord rest = true → Spelled .number (c :: body) rest
  | symbol {text : String} {kind : TokenKind} {rest : List Char} : (text, kind) ∈ symbols →
      Spelled kind text.toList rest
  | unknown {c : Char} {rest : List Char} : c ≠ '\n' →
      (∀ entry ∈ symbols, ¬ entry.1.toList <+: c :: rest) → Spelled .error [c] rest

theorem blockEnd_eq_some {text : List Char} {n : Nat} (h : blockEnd text = some n) :
    ∃ body rest, text = body ++ '*' :: '/' :: rest ∧ n = body.length + 2 ∧
      ¬ ['*', '/'] <:+: body := by
  induction text generalizing n with
  | nil => simp [blockEnd] at h
  | cons c text ih =>
      by_cases hend : ∃ rest, c :: text = '*' :: '/' :: rest
      · obtain ⟨rest, hrest⟩ := hend
        rw [hrest] at h ⊢
        have hn : 2 = n := by simpa [blockEnd] using h
        exact ⟨[], rest, rfl, hn.symm, by simp⟩
      · have hstep : blockEnd (c :: text) = (blockEnd text).map (· + 1) := by
          rw [blockEnd]
          intro rest hc ht
          exact hend ⟨rest, by rw [hc, ht]⟩
        rw [hstep] at h
        obtain ⟨m, hm, rfl⟩ := Option.map_eq_some_iff.mp h
        obtain ⟨body, rest, rfl, rfl, hbody⟩ := ih hm
        refine ⟨c :: body, rest, rfl, by simp, ?_⟩
        rw [List.infix_cons_iff]
        rintro (hfront | hinside)
        · obtain ⟨tail, htail⟩ := hfront
          apply hend
          cases body with
          | nil => simp at htail
          | cons d body =>
              simp only [List.cons_append, List.nil_append, List.cons.injEq] at htail
              exact ⟨body ++ '*' :: '/' :: rest, by simp [← htail.1, ← htail.2.1]⟩
        · exact hbody hinside

/-- A text splits behind its first characters that satisfy `p`. -/
theorem exists_run (p : Char → Bool) (text : List Char) :
    ∃ run tail, text = run ++ tail ∧ text.takeWhile p = run ∧ (∀ b ∈ run, p b = true) ∧
      ∀ b ∈ tail.head?, p b = false := by
  refine ⟨text.takeWhile p, text.dropWhile p, List.takeWhile_append_dropWhile.symm, rfl,
    fun b hb => List.mem_takeWhile_imp hb, ?_⟩
  intro b hb
  have hnot := List.head?_dropWhile_not p text
  rw [Option.mem_def.mp hb] at hnot
  exact hnot

theorem takeWhile_run {p : Char → Bool} {run rest : List Char} (hrun : ∀ b ∈ run, p b = true)
    (hrest : ∀ b ∈ rest.head?, p b = false) : (run ++ rest).takeWhile p = run := by
  rw [List.takeWhile_append_of_pos hrun]
  cases rest with
  | nil => simp
  | cons c rest => simp [hrest c rfl]

theorem dropWhile_run {p : Char → Bool} {run rest : List Char} (hrun : ∀ b ∈ run, p b = true)
    (hrest : ∀ b ∈ rest.head?, p b = false) : (run ++ rest).dropWhile p = rest := by
  have hsplit := List.takeWhile_append_dropWhile (p := p) (l := run ++ rest)
  rw [takeWhile_run hrun hrest] at hsplit
  exact List.append_cancel_left hsplit

theorem Spelled.of_append {kind : TokenKind} {c : Char} {body tail : List Char} {n : Nat}
    (h : Spelled kind (c :: body) tail) (hn : n = body.length) :
    Spelled kind (c :: (body ++ tail).take n) ((body ++ tail).drop n) := by
  rw [hn, List.take_left, List.drop_left]
  exact h

theorem spelled_of_comment {c : Char} {rest : List Char} {kind : TokenKind} {n : Nat}
    (h : comment c rest = some (kind, n)) : Spelled kind (c :: rest.take n) (rest.drop n) := by
  unfold comment at h
  split at h
  · next text =>
      obtain ⟨body, tail, rfl, hrun, hbody, htail⟩ := exists_run (· != '\n') text
      simp only [hrun, Option.some.injEq, Prod.mk.injEq] at h
      obtain ⟨rfl, rfl⟩ := h
      have hnot : '\n' ∉ body := fun hmem => by simpa using hbody _ hmem
      exact (Spelled.lineComment hnot (fun b hb => by simpa using htail b hb)).of_append
        (Nat.add_comm _ _)
  · next text =>
      obtain ⟨m, hm, hkind⟩ := Option.map_eq_some_iff.mp h
      obtain ⟨rfl, rfl⟩ := Prod.mk.inj hkind
      obtain ⟨body, tail, rfl, rfl, hbody⟩ := blockEnd_eq_some hm
      have hsplit : '*' :: (body ++ '*' :: '/' :: tail) = '*' :: (body ++ ['*', '/']) ++ tail := by
        simp
      rw [hsplit]
      exact (Spelled.blockComment hbody).of_append (by simp; omega)
  · simp at h

theorem spelled_of_newline {c : Char} {rest : List Char} {kind : TokenKind} {n : Nat}
    (h : newline c rest = some (kind, n)) : Spelled kind (c :: rest.take n) (rest.drop n) := by
  unfold newline at h
  split at h
  · next hc =>
      simp only [Option.some.injEq, Prod.mk.injEq] at h
      obtain ⟨rfl, rfl⟩ := h
      rw [hc]
      exact Spelled.newline
  · simp at h

theorem spelled_of_blanks {c : Char} {rest : List Char} {kind : TokenKind} {n : Nat}
    (h : blanks c rest = some (kind, n)) : Spelled kind (c :: rest.take n) (rest.drop n) := by
  unfold blanks at h
  split at h
  · next hc =>
      obtain ⟨body, tail, rfl, hrun, hbody, -⟩ := exists_run isBlank rest
      simp only [hrun, Option.some.injEq, Prod.mk.injEq] at h
      obtain ⟨rfl, rfl⟩ := h
      exact (Spelled.blanks (List.forall_mem_cons.mpr ⟨hc, hbody⟩)).of_append rfl
  · simp at h

theorem stringEnd_eq_some {text : List Char} {n : Nat} (h : stringEnd text = some n) :
    ∃ body tail, text = body ++ '"' :: tail ∧ n = body.length + 1 ∧ Quotable '"' body := by
  fun_induction stringEnd text generalizing n with
  | case1 => simp at h
  | case2 tail =>
      have hn : 1 = n := by simpa using h
      exact ⟨[], tail, rfl, hn.symm, .nil⟩
  | case3 => simp at h
  | case4 => simp at h
  | case5 => simp at h
  | case6 c rest hc ih =>
      obtain ⟨m, hm, rfl⟩ := Option.map_eq_some_iff.mp h
      obtain ⟨body, tail, rfl, rfl, hbody⟩ := ih hm
      exact ⟨'\\' :: c :: body, tail, rfl, rfl, .escape hc hbody⟩
  | case7 c rest hquote hnewline hlast hbreak hescape ih =>
      have hc : c ≠ '\\' := by
        intro hc
        cases rest with
        | nil => exact hlast hc rfl
        | cons d rest => exact hescape d rest hc rfl
      obtain ⟨m, hm, rfl⟩ := Option.map_eq_some_iff.mp h
      obtain ⟨body, tail, rfl, rfl, hbody⟩ := ih hm
      exact ⟨c :: body, tail, rfl, rfl, .plain hquote hc hnewline hbody⟩

theorem spelled_of_stringLiteral {c : Char} {rest : List Char} {kind : TokenKind} {n : Nat}
    (h : stringLiteral c rest = some (kind, n)) :
    Spelled kind (c :: rest.take n) (rest.drop n) := by
  unfold stringLiteral at h
  split at h
  · next hc =>
      obtain ⟨m, hm, hkind⟩ := Option.map_eq_some_iff.mp h
      obtain ⟨rfl, rfl⟩ := Prod.mk.inj hkind
      obtain ⟨body, tail, rfl, rfl, hbody⟩ := stringEnd_eq_some hm
      rw [hc, List.append_cons]
      exact (Spelled.stringLiteral hbody).of_append (by simp)
  · simp at h

theorem charEnd_eq_some {text : List Char} {n : Nat} (h : charEnd text = some n) :
    ∃ body tail, text = body ++ '\'' :: tail ∧ n = body.length + 1 ∧ Quotable '\'' body := by
  unfold charEnd at h
  split at h
  · next c tail =>
      split at h
      · simp at h
      · next hc =>
          have hn : 3 = n := by simpa using h
          exact ⟨['\\', c], tail, rfl, hn.symm, .escape hc .nil⟩
  · next c tail _ =>
      split at h
      · simp at h
      · next hc =>
          simp only [Bool.or_eq_true, decide_eq_true_eq, not_or] at hc
          have hn : 2 = n := by simpa using h
          exact ⟨[c], tail, rfl, hn.symm, .plain hc.1.1 hc.1.2 hc.2 .nil⟩
  · simp at h

theorem spelled_of_charLiteral {c : Char} {rest : List Char} {kind : TokenKind} {n : Nat}
    (h : charLiteral c rest = some (kind, n)) :
    Spelled kind (c :: rest.take n) (rest.drop n) := by
  unfold charLiteral at h
  split at h
  · next hc =>
      obtain ⟨m, hm, hkind⟩ := Option.map_eq_some_iff.mp h
      obtain ⟨rfl, rfl⟩ := Prod.mk.inj hkind
      obtain ⟨body, tail, rfl, rfl, hbody⟩ := charEnd_eq_some hm
      rw [hc, List.append_cons]
      exact (Spelled.charLiteral hbody).of_append (by simp)
  · simp at h

theorem mem_of_lookup {α β : Type} [BEq α] [LawfulBEq α] {key : α} {value : β}
    {entries : List (α × β)} (h : entries.lookup key = some value) : (key, value) ∈ entries := by
  obtain ⟨before, behind, rfl, -⟩ := List.lookup_eq_some_iff.mp h
  simp

theorem spelled_of_printCall {c : Char} {rest : List Char} {kind : TokenKind} {n : Nat}
    (h : printCall c rest = some (kind, n)) : Spelled kind (c :: rest.take n) (rest.drop n) := by
  unfold printCall at h
  split at h
  · next hpath =>
      obtain ⟨behind, hbehind⟩ := List.isPrefixOf_iff_prefix.mp hpath
      obtain ⟨run, tail, rfl, hrun, -, -⟩ := exists_run isIdentifierPart behind
      simp only [← hbehind, List.drop_left, hrun] at h
      split at h
      · next hmethod =>
          simp only [Bool.and_eq_true, List.contains_iff_mem] at hmethod
          simp only [Option.some.injEq, Prod.mk.injEq] at h
          obtain ⟨rfl, rfl⟩ := h
          obtain ⟨d, path, hd⟩ := List.exists_cons_of_ne_nil (show printPath ≠ [] by decide)
          rw [hd, List.cons_append, List.cons.injEq] at hbehind
          obtain ⟨rfl, rfl⟩ := hbehind
          have hcall := Spelled.printCall hmethod.1 hmethod.2
          rw [String.toList_ofList, hd, List.cons_append] at hcall
          rw [← List.append_assoc]
          exact hcall.of_append (by simp [hd])
      · simp at h
  · simp at h

theorem spelled_of_word {c : Char} {rest : List Char} {kind : TokenKind} {n : Nat}
    (h : word c rest = some (kind, n)) : Spelled kind (c :: rest.take n) (rest.drop n) := by
  unfold word at h
  split at h
  · next hc =>
      obtain ⟨run, tail, rfl, hrun, hbody, htail⟩ := exists_run isIdentifierPart rest
      simp only [hrun, List.drop_left, Option.some.injEq, Prod.mk.injEq] at h
      obtain ⟨hkind, rfl⟩ := h
      split at hkind
      · next hends =>
          cases hlookup : keywords.lookup (String.ofList (c :: run)) with
          | none =>
              rw [hlookup, Option.getD_none] at hkind
              subst hkind
              exact (Spelled.identifier hc hbody htail fun _ => hlookup).of_append rfl
          | some found =>
              rw [hlookup, Option.getD_some] at hkind
              subst hkind
              have hword := Spelled.keyword (mem_of_lookup hlookup) hends
              rw [String.toList_ofList] at hword
              exact hword.of_append rfl
      · next hends =>
          subst hkind
          exact (Spelled.identifier hc hbody htail fun htrue => absurd htrue hends).of_append rfl
  · simp at h

theorem endsWord_of_withExponent {text : List Char} {m n : Nat}
    (h : withExponent text m = some n) : endsWord (text.drop n) = true := by
  have hplain : ∀ {k : Nat}, withExponent.plain text m = some k →
      endsWord (text.drop k) = true := by
    intro k hk
    unfold withExponent.plain at hk
    split at hk
    · next hends => exact Option.some.inj hk ▸ hends
    · simp at hk
  unfold withExponent at h
  split at h
  · split at h
    · next hends => exact Option.some.inj h ▸ hends
    · exact hplain h
  · exact hplain h

theorem spelled_of_number {c : Char} {rest : List Char} {kind : TokenKind} {n : Nat}
    (h : number c rest = some (kind, n)) : Spelled kind (c :: rest.take n) (rest.drop n) := by
  unfold number at h
  split at h
  · next hc =>
      obtain ⟨m, hm, hkind⟩ := Option.map_eq_some_iff.mp h
      obtain ⟨rfl, rfl⟩ := Prod.mk.inj hkind
      refine Spelled.number hc ?_
      split at hm
      · next hfraction =>
          obtain ⟨k, -, hk⟩ := Option.bind_eq_some_iff.mp hfraction
          exact Option.some.inj hm ▸ endsWord_of_withExponent hk
      · exact endsWord_of_withExponent hm
  · simp at h

theorem symbols_ne_nil : ∀ entry ∈ symbols, entry.1.toList ≠ [] := by decide

theorem spelled_of_symbol {c : Char} {rest : List Char} {kind : TokenKind} {n : Nat}
    (h : symbol c rest = some (kind, n)) : Spelled kind (c :: rest.take n) (rest.drop n) := by
  unfold symbol at h
  obtain ⟨entry, hfind, hentry⟩ := Option.map_eq_some_iff.mp h
  obtain ⟨rfl, rfl⟩ := Prod.mk.inj hentry
  have hmem := List.mem_of_find?_eq_some hfind
  have hfront : entry.1.toList.isPrefixOf (c :: rest) = true := by
    simpa using List.find?_some hfind
  obtain ⟨tail, htail⟩ := List.isPrefixOf_iff_prefix.mp hfront
  obtain ⟨d, body, hbody⟩ := List.exists_cons_of_ne_nil (symbols_ne_nil entry hmem)
  rw [hbody, List.cons_append, List.cons.injEq] at htail
  obtain ⟨rfl, rfl⟩ := htail
  have hsymbol : Spelled entry.2 entry.1.toList tail := Spelled.symbol hmem
  rw [hbody] at hsymbol
  exact hsymbol.of_append (by rw [← String.length_toList, hbody]; rfl)

theorem symbol_eq_none {c : Char} {rest : List Char} (h : symbol c rest = none) :
    ∀ entry ∈ symbols, ¬ entry.1.toList <+: c :: rest := by
  intro entry hmem hfront
  have hfind := List.find?_eq_none.mp (Option.map_eq_none_iff.mp h) entry hmem
  exact hfind (List.isPrefixOf_iff_prefix.mpr hfront)

theorem findSome?_rules {c : Char} {rest : List Char} {found : TokenKind × Nat} {rule : Rule}
    {others : List Rule}
    (h : (rule :: others).findSome? (fun r => r c rest) = some found) :
    rule c rest = some found ∨
      rule c rest = none ∧ others.findSome? (fun r => r c rest) = some found := by
  rw [List.findSome?_cons] at h
  split at h
  · next hrule => exact Or.inl (hrule.trans h)
  · next hrule => exact Or.inr ⟨hrule, h⟩

theorem spelled_of_read? {c : Char} {rest : List Char} {kind : TokenKind} {n : Nat}
    (h : read? c rest = some (kind, n)) : Spelled kind (c :: rest.take n) (rest.drop n) := by
  unfold read? rules at h
  rcases findSome?_rules h with h | ⟨-, h⟩
  · exact spelled_of_comment h
  rcases findSome?_rules h with h | ⟨-, h⟩
  · exact spelled_of_newline h
  rcases findSome?_rules h with h | ⟨-, h⟩
  · exact spelled_of_blanks h
  rcases findSome?_rules h with h | ⟨-, h⟩
  · exact spelled_of_stringLiteral h
  rcases findSome?_rules h with h | ⟨-, h⟩
  · exact spelled_of_charLiteral h
  rcases findSome?_rules h with h | ⟨-, h⟩
  · exact spelled_of_printCall h
  rcases findSome?_rules h with h | ⟨-, h⟩
  · exact spelled_of_word h
  rcases findSome?_rules h with h | ⟨-, h⟩
  · exact spelled_of_number h
  rcases findSome?_rules h with h | ⟨hsymbol, h⟩
  · exact spelled_of_symbol h
  rcases findSome?_rules h with h | ⟨-, h⟩
  · unfold unknown at h
    split at h
    · simp at h
    · next hc =>
        simp only [Option.some.injEq, Prod.mk.injEq] at h
        obtain ⟨rfl, rfl⟩ := h
        exact Spelled.unknown hc (symbol_eq_none hsymbol)
  · simp at h

/-- Some rule applies to every text that is not empty. -/
theorem exists_read? (c : Char) (rest : List Char) :
    ∃ kind n, read? c rest = some (kind, n) := by
  cases hread : read? c rest with
  | some found => exact ⟨found.1, found.2, rfl⟩
  | none =>
      have hnone := List.findSome?_eq_none_iff.mp hread
      by_cases hc : c = '\n'
      · have hnewline := hnone newline (by simp [rules])
        simp [newline, hc] at hnewline
      · have hunknown := hnone unknown (by simp [rules])
        simp [unknown, hc] at hunknown

end MiniJava.Lexeme
