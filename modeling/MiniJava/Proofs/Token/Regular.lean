import Mathlib.Data.List.Chain
import MiniJava.Proofs.Token.Lexical

/-!
# Words in a token table

A word with the lexeme of a keyword has the keyword's kind, unless a letter or a digit that
identifiers do not have stands right behind it. Then it is an identifier, and the next token of the
table is a number or an error.
-/

namespace MiniJava

open Lexeme Text

namespace Lexeme

theorem keyword_characters : ∀ entry ∈ keywords,
    (entry.1.toList.head?.all fun c => isIdentifierStart c && !isDecimalDigit c &&
      c != '"' && c != '\'') = true ∧
      entry.1.toList.all isIdentifierPart = true ∧ entry.1.toList.length ≠ 1 := by
  decide

theorem lookup_of_mem_keywords : ∀ entry ∈ keywords,
    keywords.lookup entry.1 = some entry.2 := by
  decide

/-- A kept lexeme that is a keyword has the keyword's kind, or it is cut off as an identifier. -/
theorem Spelled.kind_of_mem_keywords {kind : TokenKind} {lexeme rest : List Char}
    (h : Spelled kind lexeme rest) (hkept : kind.isSkipped = false) {text : String}
    {found : TokenKind} (hmem : (text, found) ∈ keywords) (htext : text.toList = lexeme) :
    kind = found ∨ kind = .identifier := by
  obtain ⟨hhead, hparts, hlength⟩ := keyword_characters _ hmem
  simp only [htext] at hhead hparts hlength
  cases h with
  | lineComment => simp [TokenKind.isSkipped] at hkept
  | blockComment => simp [TokenKind.isSkipped] at hkept
  | newline => simp [TokenKind.isSkipped] at hkept
  | blanks => simp [TokenKind.isSkipped] at hkept
  | stringLiteral => simp at hhead
  | charLiteral => simp at hhead
  | @printCall method _ _ _ =>
      have hpoint : isIdentifierPart '.' = true :=
        List.all_eq_true.mp hparts '.' (List.mem_append_left _ (by decide))
      exact absurd hpoint (by decide)
  | @keyword other _ _ hother _ =>
      have hsame : text = other := String.toList_inj.mp htext
      have hfound := lookup_of_mem_keywords _ hmem
      rw [hsame, lookup_of_mem_keywords _ hother] at hfound
      exact .inl (Option.some.inj hfound)
  | identifier => exact .inr rfl
  | number hdigit _ => simp [hdigit] at hhead
  | @symbol other _ _ hother =>
      have hstart := head_of_mem_symbols _ hother
      obtain ⟨c, body, hbody⟩ := List.exists_cons_of_ne_nil (symbols_ne_nil _ hother)
      have hc := (hstart c (by simp only [hbody]; rfl)).2.2.1
      simp only [hbody, List.head?_cons, Option.all_some, hc] at hhead
      cases hhead
  | unknown => simp at hlength

/-- A lexeme of a keyword's kind is a keyword. -/
theorem Spelled.mem_keywords {kind : TokenKind} {lexeme rest : List Char}
    (h : Spelled kind lexeme rest) (hkind : kind ∈ keywords.map Prod.snd) :
    ∃ text, (text, kind) ∈ keywords ∧ text.toList = lexeme := by
  have hsymbols : ∀ entry ∈ symbols, entry.2 ∉ keywords.map Prod.snd := by decide
  cases h with
  | keyword hmem _ => exact ⟨_, hmem, rfl⟩
  | symbol hmem => exact absurd hkind (hsymbols _ hmem)
  | _ => exact absurd hkind (by decide)

theorem Spelled.exists_method {lexeme rest : List Char} (h : Spelled .printCall lexeme rest) :
    ∃ method ∈ printMethods, lexeme = printPath ++ method.toList := by
  cases h with
  | printCall hmem _ => exact ⟨_, hmem, rfl⟩
  | keyword hmem _ =>
      have hall : ∀ entry ∈ keywords, entry.2 ≠ .printCall := by decide
      exact absurd rfl (hall _ hmem)
  | symbol hmem => exact absurd (kind_mem_of_symbol hmem) (by decide)

/-- Only a number or an error begins with a word character that identifiers do not have. -/
theorem Spelled.kind_of_word {kind : TokenKind} {lexeme rest : List Char} {c : Char}
    (h : Spelled kind lexeme rest) (hc : c ∈ lexeme.head?) (hword : isWord c = true)
    (hpart : isIdentifierPart c = false) : kind = .number ∨ kind = .error := by
  have hplain : ∀ {d : Char}, d ∈ lexeme.head? → isWord d = false → False := by
    intro d hd hnot
    rw [Option.mem_def.mp hc] at hd
    rw [← Option.some.inj hd, hword] at hnot
    cases hnot
  have hstart : ∀ {d : Char}, d ∈ lexeme.head? → isIdentifierStart d = true → False := by
    intro d hd hid
    rw [Option.mem_def.mp hc] at hd
    rw [← Option.some.inj hd] at hid
    rw [isIdentifierPart, hid] at hpart
    cases hpart
  cases h with
  | lineComment => exact (hplain rfl (by decide)).elim
  | blockComment => exact (hplain rfl (by decide)).elim
  | newline => exact (hplain rfl (by decide)).elim
  | @blanks b _ _ hblank =>
      have hb : b = ' ' ∨ b = '\t' ∨ b = '\r' := by
        simpa [isBlank, or_assoc] using hblank b (List.mem_cons_self ..)
      rcases hb with rfl | rfl | rfl
      · exact (hplain rfl (by decide)).elim
      · exact (hplain rfl (by decide)).elim
      · exact (hplain rfl (by decide)).elim
  | stringLiteral => exact (hplain rfl (by decide)).elim
  | charLiteral => exact (hplain rfl (by decide)).elim
  | printCall => exact (hstart (d := 'S') rfl (by decide)).elim
  | keyword hmem _ =>
      obtain ⟨d, hd, hid⟩ := head_of_mem_keywords _ hmem
      exact (hstart hd hid).elim
  | identifier hid => exact (hstart rfl hid).elim
  | number => exact .inl rfl
  | symbol hmem =>
      have hall : ∀ entry ∈ symbols, (entry.1.toList.head?.all fun d => !isWord d) = true := by
        decide
      have hnot := (Option.all_eq_true _ _).mp (hall _ hmem) c hc
      simp [hword] at hnot
  | unknown => exact .inr rfl

theorem Spelled.head_of_identifier {lexeme rest : List Char} (h : Spelled .identifier lexeme rest) :
    ∀ c ∈ rest.head?, isIdentifierPart c = false := by
  cases h with
  | identifier _ _ hrest _ => exact hrest
  | keyword hmem _ => exact absurd rfl (Lexeme.kind_of_mem_keywords _ hmem).2.2.2.2
  | symbol hmem => exact absurd (kind_mem_of_symbol hmem) (by decide)

/-- An identifier is no keyword unless a word character stands behind it. -/
theorem Spelled.lookup_of_identifier {lexeme rest : List Char}
    (h : Spelled .identifier lexeme rest) (hends : endsWord rest = true) :
    keywords.lookup (String.ofList lexeme) = none := by
  cases h with
  | identifier _ _ _ hplain => exact hplain hends
  | keyword hmem _ => exact absurd rfl (Lexeme.kind_of_mem_keywords _ hmem).2.2.2.2
  | symbol hmem => exact absurd (kind_mem_of_symbol hmem) (by decide)

end Lexeme

namespace Token

/-- The token is no identifier with the lexeme of a keyword. -/
def IsPlain (token : Token) : Prop :=
  token.kind = .identifier → keywords.lookup token.lexeme = none

instance (token : Token) : Decidable token.IsPlain :=
  inferInstanceAs (Decidable (_ → _))

/-- Only a number or an error may stand behind an identifier with the lexeme of a keyword. -/
def Separates (token next : Token) : Prop :=
  token.IsPlain ∨ next.kind = .number ∨ next.kind = .error

/-- A word that was cut off has a word character behind it. -/
theorem exists_word_behind {lexeme rest : List Char} (h : Spelled .identifier lexeme rest)
    (hkeyword : keywords.lookup (String.ofList lexeme) ≠ none) :
    ∃ c ∈ rest.head?, isWord c = true ∧ isIdentifierPart c = false := by
  cases rest with
  | nil => exact absurd (h.lookup_of_identifier rfl) hkeyword
  | cons c rest =>
      refine ⟨c, rfl, ?_, h.head_of_identifier c rfl⟩
      cases hword : isWord c with
      | true => rfl
      | false => exact absurd (h.lookup_of_identifier (by simp [endsWord, hword])) hkeyword

/-- In what is kept of a text, words are separated, and a word character that identifiers do not
have begins a number or an error. -/
theorem separated_scan (p : Position) (text : List Char) :
    let kept := (scan p text).filter fun token => !token.kind.isSkipped
    kept.IsChain Separates ∧
      ((∃ c ∈ text.head?, isWord c = true ∧ isIdentifierPart c = false) →
        ∀ next ∈ kept.head?, next.kind = .number ∨ next.kind = .error) := by
  induction p, text using scan_induction with
  | nil p => exact ⟨.nil, by simp⟩
  | cons p kind lexeme tail tokens hne hspelled ih =>
      dsimp only at ih ⊢
      obtain ⟨hchain, hnext⟩ := ih
      obtain ⟨d, body, rfl⟩ := List.exists_cons_of_ne_nil hne
      constructor
      · cases hkind : kind.isSkipped with
        | true => simpa [List.filter_cons, hkind] using hchain
        | false =>
            rw [List.filter_cons_of_pos (by simp [hkind]), List.isChain_cons]
            refine ⟨fun next hmem => ?_, hchain⟩
            by_cases hplain : IsPlain ⟨kind, String.ofList (d :: body), p⟩
            · exact .inl hplain
            · obtain ⟨hidentifier, hkeyword⟩ := Classical.not_imp.mp hplain
              have hcut : kind = .identifier := hidentifier
              subst hcut
              exact .inr (hnext (exists_word_behind hspelled hkeyword) next hmem)
      · rintro ⟨c, hc, hword, hpart⟩ next hmem
        have hkind : kind = .number ∨ kind = .error := hspelled.kind_of_word hc hword hpart
        have hkept : kind.isSkipped = false := by rcases hkind with rfl | rfl <;> rfl
        rw [List.filter_cons_of_pos (by simp [hkept])] at hmem
        cases hmem
        exact hkind

theorem separated_tokenize (source : String) : (tokenize source).IsChain Separates :=
  (separated_scan .start source.toList).1

structure IsRegular (token : Token) : Prop where
  lexical : token.IsLexical
  plain : token.IsPlain

theorem IsLexical.kind_of_keyword {token : Token} (h : token.IsLexical) {kind : TokenKind}
    (hmem : (token.lexeme, kind) ∈ keywords) : token.kind = kind ∨ token.kind = .identifier := by
  obtain ⟨hkept, rest, hspelled⟩ := h.spelled
  exact hspelled.kind_of_mem_keywords hkept hmem rfl

theorem IsLexical.mem_keywords {token : Token} (h : token.IsLexical)
    (hkind : token.kind ∈ keywords.map Prod.snd) : (token.lexeme, token.kind) ∈ keywords := by
  obtain ⟨-, rest, hspelled⟩ := h.spelled
  obtain ⟨text, hmem, htext⟩ := hspelled.mem_keywords hkind
  rwa [String.toList_inj.mp htext] at hmem

/-- The lexeme of a print call is one of three. -/
theorem IsLexical.exists_method {token : Token} (h : token.IsLexical)
    (hkind : token.kind = .printCall) :
    ∃ method ∈ printMethods, token.lexeme = "System.out." ++ method := by
  obtain ⟨-, rest, hspelled⟩ := h.spelled
  rw [hkind] at hspelled
  obtain ⟨method, hmem, hlexeme⟩ := hspelled.exists_method
  have htext : token.lexeme.toList = ("System.out." ++ method).toList := by
    rw [String.toList_append]
    exact hlexeme
  exact ⟨method, hmem, String.toList_inj.mp htext⟩

theorem IsLexical.lexeme_of_null {token : Token} (h : token.IsLexical)
    (hkind : token.kind = .nullLiteral) : token.lexeme = "null" := by
  have hall : ∀ entry ∈ keywords, entry.2 = .nullLiteral → entry.1 = "null" := by decide
  exact hall _ (h.mem_keywords (hkind ▸ by decide)) hkind

theorem IsRegular.kind_of_keyword {token : Token} (h : token.IsRegular) {kind : TokenKind}
    (hmem : (token.lexeme, kind) ∈ keywords) : token.kind = kind := by
  rcases h.lexical.kind_of_keyword hmem with hkind | hkind
  · exact hkind
  · have hlookup := lookup_of_mem_keywords _ hmem
    rw [h.plain hkind] at hlookup
    cases hlookup

end Token

end MiniJava
