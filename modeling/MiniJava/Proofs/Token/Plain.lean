import MiniJava.Proofs.Python.Layout
import MiniJava.Proofs.Syntax.Leaves
import MiniJava.Proofs.Token.Regular
import MiniJava.Proofs.Token.StandsAlone

/-!
# Identifiers and literals keep to their lines

No identifier and no literal of a token table has a line break in it, begins with a blank or ends
in a colon, whatever script its digits are from.
-/

namespace MiniJava

open Lexeme Text Python

/-- The characters that numbers are made of. -/
def isNumeric (c : Char) : Bool := isDecimalDigit c || ['.', 'e', 'E', '+', '-'].contains c

theorem isNumeric_of_digits {digits : List Char} (h : ∀ d ∈ digits, isDecimalDigit d = true) :
    ∀ d ∈ digits, isNumeric d = true := by
  intro d hd
  rw [isNumeric, h d hd, Bool.true_or]

namespace Lexeme

theorem kind_ne_number_of_word {c : Char} {rest : List Char} {kind : TokenKind} {n : Nat}
    (h : word c rest = some (kind, n)) : kind ≠ .number := by
  have hkeyword : ∀ entry ∈ keywords, entry.2 ≠ .number := by decide
  unfold word at h
  split at h
  · obtain ⟨hkind, -⟩ := Prod.mk.inj (Option.some.inj h)
    rw [← hkind]
    split
    · cases hlookup : keywords.lookup (String.ofList (c :: rest.takeWhile isIdentifierPart)) with
      | none =>
          rw [Option.getD_none]
          decide
      | some found => exact hkeyword _ (mem_of_lookup hlookup)
    · decide
  · cases h

theorem number_of_read? {c : Char} {rest : List Char} {n : Nat}
    (h : read? c rest = some (.number, n)) : number c rest = some (.number, n) := by
  have hsymbol : ∀ entry ∈ symbols, entry.2 ≠ .number := by decide
  unfold read? rules at h
  rcases findSome?_rules h with h | ⟨-, h⟩
  · cases kind_of_comment h
  rcases findSome?_rules h with h | ⟨-, h⟩
  · cases kind_of_newline h
  rcases findSome?_rules h with h | ⟨-, h⟩
  · cases kind_of_blanks h
  rcases findSome?_rules h with h | ⟨-, h⟩
  · simp [stringLiteral] at h
  rcases findSome?_rules h with h | ⟨-, h⟩
  · simp [charLiteral] at h
  rcases findSome?_rules h with h | ⟨-, h⟩
  · simp [printCall] at h
  rcases findSome?_rules h with h | ⟨-, h⟩
  · exact absurd rfl (kind_ne_number_of_word h)
  rcases findSome?_rules h with h | ⟨-, h⟩
  · exact h
  rcases findSome?_rules h with h | ⟨-, h⟩
  · obtain ⟨entry, hfind, hentry⟩ := Option.map_eq_some_iff.mp h
    exact absurd (Prod.mk.inj hentry).1 (hsymbol entry (List.mem_of_find?_eq_some hfind))
  · simp [unknown] at h

theorem isNumeric_of_number {c : Char} {rest : List Char} {n : Nat}
    (h : number c rest = some (.number, n)) : ∀ d ∈ c :: rest.take n, isNumeric d = true := by
  obtain ⟨digits, fraction, exponent, tail, rfl, rfl, -, hc, hdigits, hfraction, hexponent⟩ :=
    exists_number h
  rw [List.take_left, List.forall_mem_cons, List.forall_mem_append, List.forall_mem_append]
  refine ⟨by rw [isNumeric, hc, Bool.true_or], ⟨isNumeric_of_digits hdigits, ?_⟩, ?_⟩
  · cases hfraction with
    | none => simp
    | some _ hplaces =>
        rw [List.forall_mem_cons]
        exact ⟨by decide, isNumeric_of_digits hplaces⟩
  · cases hexponent with
    | none => simp
    | some hmark hsign _ hall =>
        rw [List.forall_mem_cons, List.forall_mem_append]
        refine ⟨?_, ?_, isNumeric_of_digits hall⟩
        · rcases hmark with rfl | rfl <;> decide
        · rcases hsign with rfl | rfl | rfl
          · exact List.forall_mem_nil _
          · exact List.forall_mem_singleton.mpr (by decide)
          · exact List.forall_mem_singleton.mpr (by decide)

end Lexeme

theorem isNumeric_of_mem_scan (p : Position) (text : List Char) :
    ∀ token ∈ Token.scan p text, token.kind = .number →
      ∀ d ∈ token.lexeme.toList, isNumeric d = true := by
  induction p, text using Token.scan_read_induction with
  | nil p => simp
  | cons p c rest kind n hread ih =>
      rw [Token.scan_cons p hread, List.forall_mem_cons]
      refine ⟨fun hkind => ?_, ih⟩
      obtain rfl : kind = .number := hkind
      rw [String.toList_ofList]
      exact isNumeric_of_number (number_of_read? hread)

/-- A quoted text between its quotes. -/
theorem plain_quoted (quote : Char) {text : String} {body : List Char}
    (hquote : quote ≠ '\n' ∧ quote ≠ ' ' ∧ quote ≠ ':') (hbody : '\n' ∉ body)
    (htext : text.toList = quote :: (body ++ [quote])) : Plain text := by
  refine ⟨⟨?_, quote, body ++ [quote], htext, hquote.2.1⟩, quote :: body, quote, ?_, hquote.2.2⟩
  · simp [htext, hbody, hquote.1.symm]
  · rw [htext, List.cons_append]

theorem plain_of_run (good : Char → Bool) {text : String} (hne : text.toList ≠ [])
    (hgood : ∀ c ∈ text.toList, good c = true) (hbreak : good '\n' = false)
    (hblank : good ' ' = false) (hcolon : good ':' = false) : Plain text := by
  have hapart : ∀ {c d : Char}, c ∈ text.toList → good d = false → c ≠ d := by
    rintro c _ hc hd rfl
    rw [hgood c hc] at hd
    cases hd
  obtain ⟨c, rest, hfirst⟩ := List.exists_cons_of_ne_nil hne
  refine ⟨⟨fun hmem => hapart hmem hbreak rfl, c, rest, hfirst, ?_⟩,
    text.toList.dropLast, text.toList.getLast hne, ?_, ?_⟩
  · exact hapart (by simp [hfirst]) hblank
  · rw [List.dropLast_append_getLast]
  · exact hapart (List.getLast_mem hne) hcolon

theorem plain_of_isIdentifier {c : Char} {body : List Char} {text : String}
    (htext : text.toList = c :: body) (hstart : isIdentifierStart c = true)
    (hbody : ∀ b ∈ body, isIdentifierPart b = true) : Plain text := by
  refine plain_of_run isIdentifierPart ?_ ?_ (by decide) (by decide) (by decide)
  · simp [htext]
  · rw [htext, List.forall_mem_cons]
    exact ⟨by rw [isIdentifierPart, hstart, Bool.true_or], hbody⟩

namespace Token

theorem IsLexical.plain {token : Token} (h : token.IsLexical) (hleaf : token.kind.isLeaf = true) :
    Plain token.lexeme := by
  have hall : ∀ entry ∈ Lexeme.keywords,
      entry.1.toList ≠ [] ∧ entry.1.toList.all isIdentifierPart = true := by
    decide
  cases hkind : token.kind with
  | identifier =>
      obtain ⟨c, body, htext, hstart, hbody⟩ := h.identifier_parts hkind
      exact plain_of_isIdentifier htext hstart hbody
  | number =>
      obtain ⟨source, other, hmem, hother, hlexeme⟩ := h
      have hscan := (List.mem_filter.mp hmem).1
      rw [← hlexeme]
      refine plain_of_run isNumeric (lexeme_ne_nil_of_mem_scan _ _ other hscan) ?_
        (by decide) (by decide) (by decide)
      exact isNumeric_of_mem_scan _ _ other hscan (hother.trans hkind)
  | stringLiteral =>
      obtain ⟨text, htext, hquotable⟩ := h.exists_string hkind
      exact plain_quoted '"' (by decide) hquotable.unbroken (by simp [htext])
  | charLiteral =>
      obtain ⟨text, htext, hquotable⟩ := h.exists_char hkind
      exact plain_quoted '\'' (by decide) hquotable.unbroken (by simp [htext])
  | booleanLiteral | nullLiteral =>
      have hword := hall _ (h.mem_keywords (by rw [hkind]; decide))
      exact plain_of_run isIdentifierPart hword.1 (List.all_eq_true.mp hword.2)
        (by decide) (by decide) (by decide)
  | _ =>
      rw [hkind] at hleaf
      cases hleaf

end Token

/-- The identifiers and literals of a table are plain. -/
theorem plain_of_mem_leavesOf {tokens : List Token} (h : ∀ token ∈ tokens, token.IsLexical)
    {leaf : Leaf} (hleaf : leaf ∈ leavesOf tokens) : Plain leaf.2 := by
  obtain ⟨token, htoken, hfound⟩ := List.mem_filterMap.mp hleaf
  unfold Token.leaf? at hfound
  split at hfound
  · next hkind =>
      cases hfound
      exact (h token htoken).plain hkind
  · cases hfound

end MiniJava
