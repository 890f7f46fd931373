import MiniJava.Proofs.Token.Regular
import MiniJava.Proofs.Token.Standing
import MiniJava.Proofs.Token.StandsAlone

/-!
# The kind of a lexeme

Lexemes are read alike wherever they stand, but for one case: the word of a keyword with a letter or
a digit behind it that identifiers do not have is cut off in front of it and read as an identifier.
So two tokens with one lexeme are of one kind if both are cut off or neither is.
-/

namespace MiniJava

open Lexeme Text

namespace Lexeme

def boundedKinds : List TokenKind := .number :: .printCall :: keywords.map Prod.snd

theorem Spelled.bounded {kind : TokenKind} {lexeme rest : List Char}
    (h : Spelled kind lexeme rest) (hkind : kind ∈ boundedKinds) : endsWord rest = true := by
  have hsymbols : ∀ entry ∈ symbols, entry.2 ∉ boundedKinds := by decide
  cases h with
  | printCall _ hends => exact hends
  | keyword _ hends => exact hends
  | number _ hends => exact hends
  | symbol hmem => exact absurd hkind (hsymbols _ hmem)
  | _ => exact absurd hkind (by decide)

theorem bounded_of_mem_keywords {text : String} {kind : TokenKind} (h : (text, kind) ∈ keywords) :
    kind ∈ boundedKinds :=
  List.mem_cons_of_mem _ (List.mem_cons_of_mem _ (List.mem_map_of_mem (f := Prod.snd) h))

/-- A lexeme has one kind wherever it stands alone. -/
theorem StandsAlone.kind_eq {kind other : TokenKind} {lexeme : List Char}
    (h : StandsAlone kind lexeme) (hother : StandsAlone other lexeme) : kind = other := by
  obtain ⟨c, body, rfl, hread⟩ := h
  obtain ⟨d, more, hlexeme, hagain⟩ := hother
  obtain ⟨rfl, rfl⟩ := List.cons.inj hlexeme
  have hnothing : BeginsLayout [] := by simp [BeginsLayout]
  have hsame := (hread [] hnothing).symm.trans (hagain [] hnothing)
  exact (Prod.mk.inj (Option.some.inj hsame)).1

end Lexeme

namespace Token

/-- The word of a keyword in front of a word character. -/
def IsCutOff (token : Token) (source : String) : Prop :=
  (keywords.lookup token.lexeme).isSome = true ∧ endsWord (token.behind source) = false

variable {source other : String} {token : Token}

theorem isCutOff_iff (h : token ∈ tokenize source) :
    token.IsCutOff source ↔ ¬ token.IsPlain := by
  obtain ⟨hscan, hkept⟩ := mem_scan_of_mem_tokenize h
  have hspelled := spelled_behind hscan
  constructor
  · rintro ⟨hkeyword, hends⟩ hplain
    obtain ⟨kind, hkind⟩ := Option.isSome_iff_exists.mp hkeyword
    have hmem := mem_of_lookup hkind
    rcases hspelled.kind_of_mem_keywords hkept hmem rfl with hfound | hidentifier
    · have hboundary := hspelled.bounded (hfound ▸ bounded_of_mem_keywords hmem)
      rw [hends] at hboundary
      cases hboundary
    · rw [hplain hidentifier] at hkind
      cases hkind
  · intro hplain
    obtain ⟨hidentifier, hkeyword⟩ := Classical.not_imp.mp hplain
    rw [hidentifier] at hspelled
    refine ⟨Option.isSome_iff_ne_none.mpr hkeyword, ?_⟩
    by_contra hends
    have hnone := hspelled.lookup_of_identifier (Bool.not_eq_false _ ▸ hends)
    rw [String.ofList_toList] at hnone
    exact hkeyword hnone

theorem standsAlone_of_plain (h : token ∈ tokenize source) (herror : token.kind ≠ .error)
    (hplain : token.IsPlain) : StandsAlone token.kind token.lexeme.toList := by
  obtain ⟨hscan, hkept⟩ := mem_scan_of_mem_tokenize h
  obtain ⟨c, rest, n, -, hread, hlexeme, -⟩ := exists_read hscan
  rw [hlexeme]
  refine standsAlone_of_read? hread hkept herror fun hidentifier => ?_
  rw [← hlexeme, String.ofList_toList]
  exact hplain hidentifier

/-- Tokens with one lexeme are of one kind if both are cut off or neither is. A token is cut off
exactly if it is an identifier with the word of a keyword; else the word of a keyword has the
keyword's kind. -/
theorem kind_eq_iff {s t : Token} (hs : s ∈ tokenize source) (ht : t ∈ tokenize other)
    (hserror : s.kind ≠ .error) (hterror : t.kind ≠ .error) (hlexeme : s.lexeme = t.lexeme) :
    (s.kind = t.kind ↔ (s.IsCutOff source ↔ t.IsCutOff other)) ∧
      (s.IsCutOff source ↔ s.kind = .identifier ∧ (keywords.lookup s.lexeme).isSome = true) ∧
      ∀ kind, keywords.lookup s.lexeme = some kind → ¬ s.IsCutOff source → s.kind = kind := by
  have hcut : ∀ {token : Token}, ¬ token.IsPlain ↔
      token.kind = .identifier ∧ keywords.lookup token.lexeme ≠ none := Classical.not_imp
  refine ⟨?_, ?_, ?_⟩
  · rw [isCutOff_iff hs, isCutOff_iff ht]
    constructor
    · intro hkind
      rw [hcut, hcut, hkind, hlexeme]
    · intro hsame
      by_cases hplain : s.IsPlain
      · have hother : t.IsPlain := not_not.mp fun hnot => hsame.mpr hnot hplain
        have hstands := standsAlone_of_plain ht hterror hother
        rw [← hlexeme] at hstands
        exact (standsAlone_of_plain hs hserror hplain).kind_eq hstands
      · rw [(hcut.mp hplain).1, (hcut.mp (hsame.mp hplain)).1]
  · rw [isCutOff_iff hs, hcut, Option.isSome_iff_ne_none]
  · intro kind hkind hwhole
    obtain ⟨hscan, hkept⟩ := mem_scan_of_mem_tokenize hs
    rcases (spelled_behind hscan).kind_of_mem_keywords hkept (mem_of_lookup hkind) rfl with
      hfound | hidentifier
    · exact hfound
    · rw [isCutOff_iff hs, hcut, hidentifier, hkind] at hwhole
      exact absurd ⟨rfl, Option.some_ne_none kind⟩ hwhole

/-- A digit that is not ASCII cuts the keyword off in the first text but not in the second. -/
theorem kind_eq_iff_return :
    ∃ s ∈ tokenize "return\u0663;", ∃ t ∈ tokenize "return 3;", s.kind ≠ .error ∧ t.kind ≠ .error ∧
      s.lexeme = t.lexeme ∧ (s.kind = t.kind ↔
        (s.IsCutOff "return\u0663;" ↔ t.IsCutOff "return 3;")) ∧
      s.kind = .identifier ∧ t.kind = .reservedWord := by
  have hs : (⟨.identifier, "return", ⟨1, 1⟩⟩ : Token) ∈ tokenize "return\u0663;" := by
    decide +kernel
  have ht : (⟨.reservedWord, "return", ⟨1, 1⟩⟩ : Token) ∈ tokenize "return 3;" := by
    decide +kernel
  exact ⟨_, hs, _, ht, by decide, by decide, rfl,
    (kind_eq_iff hs ht (by decide) (by decide) rfl).1, rfl, rfl⟩

/-- The word `int` is a type, but in front of a letter that is not ASCII it is an identifier. -/
theorem kind_ne_of_cut_off :
    ∃ s ∈ tokenize "int int\u00f1", ∃ t ∈ tokenize "int int\u00f1",
      s.kind ≠ .error ∧ t.kind ≠ .error ∧ s.lexeme = t.lexeme ∧ s.kind = .dataType ∧
        t.kind = .identifier := by
  decide +kernel

end Token

end MiniJava
