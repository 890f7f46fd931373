import MiniJava.Proofs.Token.Tiling
import MiniJava.Syntax.Operator

/-!
# Tokens as tables have them

A lexical token has a kind and a lexeme that stand together in the token table of some source text.
Its lexeme is spelled like its kind, so an operator or a punctuation mark tells its kind, and such a
kind tells that the lexeme is one of the symbols.
-/

namespace MiniJava

open Lexeme Text

namespace TokenKind

/-- The kinds of operators. -/
def isOperator : TokenKind → Bool
  | arithmeticOperator | assignmentOperator | compoundOperator | logicalOperator
  | relationalOperator | incrementOperator | bitwiseOperator => true
  | _ => false

end TokenKind

namespace Lexeme

theorem head_of_mem_symbols : ∀ entry ∈ symbols, ∀ c ∈ entry.1.toList.head?,
    c ≠ '"' ∧ c ≠ '\'' ∧ isIdentifierStart c = false ∧ isDecimalDigit c = false := by
  have hall : ∀ entry ∈ symbols, (entry.1.toList.head?.all fun c =>
      c ≠ '"' ∧ c ≠ '\'' ∧ isIdentifierStart c = false ∧ isDecimalDigit c = false) = true := by
    decide
  intro entry hentry c hc
  exact of_decide_eq_true ((Option.all_eq_true _ _).mp (hall entry hentry) c hc)

theorem head_of_mem_keywords : ∀ entry ∈ keywords, ∃ c ∈ entry.1.toList.head?,
    isIdentifierStart c = true := by
  have hany : ∀ entry ∈ keywords, entry.1.toList.head?.any isIdentifierStart = true := by
    decide
  intro entry hentry
  exact (Option.any_eq_true _ _).mp (hany entry hentry)

theorem kind_of_mem_keywords : ∀ entry ∈ keywords,
    entry.2.isSkipped = false ∧ entry.2 ∉ symbols.map Prod.snd ∧ entry.2 ≠ .stringLiteral ∧
      entry.2 ≠ .charLiteral ∧ entry.2 ≠ .identifier := by
  decide

theorem kind_mem_of_symbol {text : String} {kind : TokenKind} (h : (text, kind) ∈ symbols) :
    kind ∈ symbols.map Prod.snd := List.mem_map_of_mem h

theorem symbols_functional : ∀ entry ∈ symbols, ∀ other ∈ symbols,
    entry.1 = other.1 → entry.2 = other.2 := by
  decide

/-- A kept lexeme that is a symbol has the symbol's kind. -/
theorem Spelled.kind_eq_of_mem_symbols {kind : TokenKind} {lexeme rest : List Char}
    (h : Spelled kind lexeme rest) (hkept : kind.isSkipped = false) {text : String}
    {found : TokenKind} (hmem : (text, found) ∈ symbols) (htext : text.toList = lexeme) :
    kind = found := by
  have hhead := head_of_mem_symbols _ hmem
  cases h with
  | lineComment => simp [TokenKind.isSkipped] at hkept
  | blockComment => simp [TokenKind.isSkipped] at hkept
  | newline => simp [TokenKind.isSkipped] at hkept
  | blanks => simp [TokenKind.isSkipped] at hkept
  | stringLiteral => simp [htext] at hhead
  | charLiteral => simp [htext] at hhead
  | printCall _ _ =>
      have hstart := (hhead 'S' (by rw [htext]; rfl)).2.2.1
      simp [isIdentifierStart, isAsciiLetter] at hstart
  | keyword hkeyword _ =>
      obtain ⟨c, hc, hstart⟩ := head_of_mem_keywords _ hkeyword
      have hnot := (hhead c (by rw [htext]; exact hc)).2.2.1
      rw [hstart] at hnot
      cases hnot
  | identifier hstart _ _ _ => simp [htext, hstart] at hhead
  | number hdigit _ => simp [htext, hdigit] at hhead
  | symbol hother => exact symbols_functional _ hother _ hmem (String.toList_inj.mp htext.symm)
  | unknown _ hnone =>
      refine absurd ?_ (hnone _ hmem)
      rw [htext]
      exact ⟨_, rfl⟩

/-- A lexeme of a symbol's kind is a symbol. -/
theorem Spelled.mem_symbols {kind : TokenKind} {lexeme rest : List Char}
    (h : Spelled kind lexeme rest) (hkind : kind ∈ symbols.map Prod.snd) :
    ∃ text, (text, kind) ∈ symbols ∧ text.toList = lexeme := by
  cases h with
  | symbol hmem => exact ⟨_, hmem, rfl⟩
  | keyword hmem _ => exact absurd hkind (kind_of_mem_keywords _ hmem).2.1
  | _ => exact absurd hkind (by decide)

theorem Spelled.exists_string {lexeme rest : List Char} (h : Spelled .stringLiteral lexeme rest) :
    ∃ body, lexeme = '"' :: (body ++ ['"']) ∧ Quotable '"' body := by
  cases h with
  | stringLiteral hbody => exact ⟨_, rfl, hbody⟩
  | keyword hmem _ => exact absurd rfl (kind_of_mem_keywords _ hmem).2.2.1
  | symbol hmem => exact absurd (kind_mem_of_symbol hmem) (by decide)

theorem Spelled.exists_char {lexeme rest : List Char} (h : Spelled .charLiteral lexeme rest) :
    ∃ body, lexeme = '\'' :: (body ++ ['\'']) ∧ Quotable '\'' body := by
  cases h with
  | charLiteral hbody => exact ⟨_, rfl, hbody⟩
  | keyword hmem _ => exact absurd rfl (kind_of_mem_keywords _ hmem).2.2.2.1
  | symbol hmem => exact absurd (kind_mem_of_symbol hmem) (by decide)

theorem Spelled.eq_bool {lexeme rest : List Char} (h : Spelled .booleanLiteral lexeme rest) :
    lexeme = "true".toList ∨ lexeme = "false".toList := by
  have hall : ∀ entry ∈ keywords, entry.2 = .booleanLiteral →
      entry.1 = "true" ∨ entry.1 = "false" := by decide
  cases h with
  | keyword hmem _ => exact (hall _ hmem rfl).imp (congrArg _) (congrArg _)
  | symbol hmem => exact absurd (kind_mem_of_symbol hmem) (by decide)

theorem Spelled.identifier_parts {lexeme rest : List Char}
    (h : Spelled .identifier lexeme rest) :
    ∃ c body, lexeme = c :: body ∧ isIdentifierStart c = true ∧
      ∀ b ∈ body, isIdentifierPart b = true := by
  cases h with
  | identifier hstart hbody _ _ => exact ⟨_, _, rfl, hstart, hbody⟩
  | keyword hmem _ => exact absurd rfl (kind_of_mem_keywords _ hmem).2.2.2.2
  | symbol hmem => exact absurd (kind_mem_of_symbol hmem) (by decide)

end Lexeme

namespace Token

theorem Tiling.spelled_of_mem {before text : List Char} {tokens : List Token}
    (h : Tiling before tokens text) {token : Token} (hmem : token ∈ tokens) :
    token.kind.isSkipped = false ∧ ∃ rest, Spelled token.kind token.lexeme.toList rest := by
  induction h with
  | done => simp at hmem
  | token _ hkept hspelled _ _ _ ih =>
      rcases List.mem_cons.mp hmem with rfl | hlater
      · exact ⟨hkept, _, hspelled⟩
      · exact ih hlater

/-- Some source text has a token of this kind with this lexeme. -/
def IsLexical (token : Token) : Prop :=
  ∃ source, ∃ other ∈ tokenize source, other.kind = token.kind ∧ other.lexeme = token.lexeme

theorem isLexical_of_mem_tokenize {source : String} {token : Token}
    (h : token ∈ tokenize source) : token.IsLexical := ⟨source, token, h, rfl, rfl⟩

namespace IsLexical

variable {token : Token}

theorem spelled (h : token.IsLexical) :
    token.kind.isSkipped = false ∧ ∃ rest, Spelled token.kind token.lexeme.toList rest := by
  obtain ⟨source, other, hmem, hkind, hlexeme⟩ := h
  rw [← hkind, ← hlexeme]
  exact (tiling_scan .start source.toList [] Position.behind_nil).spelled_of_mem hmem

theorem kind_of_symbol (h : token.IsLexical) {kind : TokenKind}
    (hmem : (token.lexeme, kind) ∈ symbols) : token.kind = kind := by
  obtain ⟨hkept, rest, hspelled⟩ := h.spelled
  exact hspelled.kind_eq_of_mem_symbols hkept hmem rfl

theorem mem_symbols (h : token.IsLexical) (hkind : token.kind ∈ symbols.map Prod.snd) :
    (token.lexeme, token.kind) ∈ symbols := by
  obtain ⟨_, rest, hspelled⟩ := h.spelled
  obtain ⟨text, hmem, htext⟩ := hspelled.mem_symbols hkind
  rwa [String.toList_inj.mp htext] at hmem

theorem kind_of_unaryOp (h : token.IsLexical) {op : UnaryOp} (hop : token.lexeme = op.symbol) :
    token.kind.isOperator = true := by
  have hmem : ∃ entry ∈ symbols, entry.1 = op.symbol ∧ entry.2.isOperator = true := by
    cases op <;> decide
  obtain ⟨⟨text, kind⟩, hkind, htext, hoperator⟩ := hmem
  have hlexeme : token.lexeme = text := hop.trans htext.symm
  rwa [h.kind_of_symbol (hlexeme ▸ hkind)]

theorem kind_of_stepOp (h : token.IsLexical) {op : StepOp} (hop : token.lexeme = op.symbol) :
    token.kind = .incrementOperator := by
  have hmem : (op.symbol, TokenKind.incrementOperator) ∈ symbols := by
    cases op <;> decide
  exact h.kind_of_symbol (hop ▸ hmem)

theorem kind_of_open (h : token.IsLexical) (hlexeme : token.lexeme = "(") :
    token.kind = .delimiter := h.kind_of_symbol (hlexeme ▸ by decide)

theorem kind_of_close (h : token.IsLexical) (hlexeme : token.lexeme = ")") :
    token.kind = .delimiter := h.kind_of_symbol (hlexeme ▸ by decide)

theorem lexeme_of_assignment (h : token.IsLexical) (hkind : token.kind = .assignmentOperator) :
    token.lexeme = "=" := by
  have hmem := h.mem_symbols (by rw [hkind]; decide)
  have hall : ∀ entry ∈ symbols, entry.2 = .assignmentOperator → entry.1 = "=" := by
    decide
  exact hall _ hmem hkind

theorem lexeme_of_compound (h : token.IsLexical) (hkind : token.kind = .compoundOperator) :
    ∃ op : BinaryOp, token.lexeme = op.symbol ++ "=" := by
  have hmem := h.mem_symbols (by rw [hkind]; decide)
  have hall : ∀ entry ∈ symbols, entry.2 = .compoundOperator →
      ∃ op ∈ BinaryOp.all, entry.1 = op.symbol ++ "=" := by decide
  obtain ⟨op, _, hop⟩ := hall _ hmem hkind
  exact ⟨op, hop⟩

/-- A string's lexeme is its text between two quotes. -/
theorem exists_string (h : token.IsLexical) (hkind : token.kind = .stringLiteral) :
    ∃ text : String, token.lexeme = "\"" ++ text ++ "\"" ∧ Quotable '"' text.toList := by
  obtain ⟨_, rest, hspelled⟩ := h.spelled
  rw [hkind] at hspelled
  obtain ⟨body, hbody, hquotable⟩ := hspelled.exists_string
  exact ⟨.ofList body, String.toList_inj.mp (by simp [hbody]), by simpa using hquotable⟩

theorem exists_char (h : token.IsLexical) (hkind : token.kind = .charLiteral) :
    ∃ text : String, token.lexeme = "'" ++ text ++ "'" ∧ Quotable '\'' text.toList := by
  obtain ⟨_, rest, hspelled⟩ := h.spelled
  rw [hkind] at hspelled
  obtain ⟨body, hbody, hquotable⟩ := hspelled.exists_char
  exact ⟨.ofList body, String.toList_inj.mp (by simp [hbody]), by simpa using hquotable⟩

theorem lexeme_of_bool (h : token.IsLexical) (hkind : token.kind = .booleanLiteral) :
    token.lexeme = "true" ∨ token.lexeme = "false" := by
  obtain ⟨_, rest, hspelled⟩ := h.spelled
  rw [hkind] at hspelled
  exact hspelled.eq_bool.imp String.toList_inj.mp String.toList_inj.mp

theorem identifier_parts (h : token.IsLexical) (hkind : token.kind = .identifier) :
    ∃ c body, token.lexeme.toList = c :: body ∧ isIdentifierStart c = true ∧
      ∀ b ∈ body, isIdentifierPart b = true := by
  obtain ⟨_, rest, hspelled⟩ := h.spelled
  rw [hkind] at hspelled
  exact hspelled.identifier_parts

end IsLexical

end Token

end MiniJava
