import MiniJava.CommandLine.Outcome
import MiniJava.Proofs.Text.Integer
import MiniJava.Proofs.Token.Plain

/-!
# Listings can be read back

A row of a listing tells its token: behind the position stands the name of the kind, however wide
the position is, and the lexeme begins where the column of the kinds ends. No lexeme of a table has
a newline in it, so the rows of a listing are its lines and the listing tells the table.
-/

namespace MiniJava.Token

open Lexeme Text

def kindWidth : Nat := 22

/-- The token that a row shows. -/
def ofRow? (row : List Char) : Option Token :=
  match row.dropWhile isAsciiDigit with
  | ':' :: rest =>
    let fields := (rest.dropWhile isAsciiDigit).dropWhile (· == ' ')
    (TokenKind.ofLabel? (String.ofList (fields.takeWhile (· != ' ')))).map fun kind =>
      ⟨kind, String.ofList (fields.drop kindWidth),
        ⟨digitsValue (row.takeWhile isAsciiDigit), digitsValue (rest.takeWhile isAsciiDigit)⟩⟩
  | _ => none

/-- The tokens of a text in which every row ends in a newline. -/
def ofListing? (text : String) : Option (List Token) :=
  (text.toList.splitOn '\n').dropLast.mapM ofRow?

def padding (width : Nat) (text : String) : List Char :=
  List.replicate (width - text.length) ' '

theorem toList_row (token : Token) : token.row.toList =
    token.position.line.repr.toList ++ ':' :: (token.position.column.repr.toList ++
      (padding 8 token.position.toText ++ (token.kind.label.toList ++
        (padding kindWidth token.kind.label ++ token.lexeme.toList)))) := by
  simp [row, row.pad, padding, kindWidth, Position.toText]

theorem eq_blank_of_mem_padding {width : Nat} {text : String} {c : Char}
    (h : c ∈ padding width text) : c = ' ' := List.eq_of_mem_replicate h

/-- A kind's name is a word that leaves room in its column. -/
theorem label_word (kind : TokenKind) : kind.label.toList.length < kindWidth ∧
    kind.label.toList.head?.any isAsciiDigit = false ∧ '\n' ∉ kind.label.toList ∧
      ' ' ∉ kind.label.toList ∧ kind.label.toList ≠ [] := by
  cases kind <;> decide

theorem ofLabel?_label (kind : TokenKind) : TokenKind.ofLabel? kind.label = some kind := by
  cases kind <;> decide

/-- The column of the kinds is as wide as it is, whatever stands behind it. -/
theorem drop_kind (kind : TokenKind) (text : List Char) :
    (kind.label.toList ++ (padding kindWidth kind.label ++ text)).drop kindWidth = text := by
  have hwidth := (label_word kind).1
  rw [← List.append_assoc, List.drop_left']
  rw [padding, List.length_append, List.length_replicate, ← String.length_toList]
  omega

theorem takeWhile_kind (kind : TokenKind) (text : List Char) :
    (kind.label.toList ++ (padding kindWidth kind.label ++ text)).takeWhile (· != ' ') =
      kind.label.toList := by
  obtain ⟨hwidth, -, -, hblank, -⟩ := label_word kind
  refine takeWhile_run (fun c hc => ?_) fun c hc => ?_
  · rw [bne_iff_ne]
    rintro rfl
    exact hblank hc
  · obtain ⟨n, hn⟩ : ∃ n, kindWidth - kind.label.length = n + 1 :=
      ⟨kindWidth - kind.label.length - 1, by rw [← String.length_toList]; omega⟩
    rw [padding, hn, List.replicate_succ] at hc
    cases hc
    rfl

theorem head?_label_append (kind : TokenKind) (text : List Char) :
    ∀ c ∈ (kind.label.toList ++ text).head?, isAsciiDigit c = false ∧ (c == ' ') = false := by
  obtain ⟨-, hdigit, -, hblank, hne⟩ := label_word kind
  obtain ⟨first, rest, hlabel⟩ := List.exists_cons_of_ne_nil hne
  rw [hlabel] at hdigit hblank ⊢
  rintro c ⟨rfl⟩
  exact ⟨by simpa using hdigit, beq_eq_false_iff_ne.mpr fun h => hblank (h ▸ List.mem_cons_self)⟩

/-- A row tells its token, whatever the position and the lexeme are. -/
theorem ofRow?_row (token : Token) : ofRow? token.row.toList = some token := by
  have hdigits : ∀ n : Nat, ∀ d ∈ n.repr.toList, isAsciiDigit d = true :=
    fun _ _ hd => isAsciiDigit_of_mem_repr hd
  have hpadding : ∀ d ∈ padding 8 token.position.toText, (d == ' ') = true :=
    fun _ hd => beq_iff_eq.mpr (eq_blank_of_mem_padding hd)
  have hcolon : ∀ text : List Char, ∀ b ∈ (':' :: text).head?, isAsciiDigit b = false := by
    rintro text b ⟨rfl⟩
    decide
  have hlabel := head?_label_append token.kind (padding kindWidth token.kind.label ++
    token.lexeme.toList)
  -- a position that fills its column is followed by the kind at once
  have hbehind : ∀ b ∈ (padding 8 token.position.toText ++ (token.kind.label.toList ++
      (padding kindWidth token.kind.label ++ token.lexeme.toList))).head?,
      isAsciiDigit b = false := by
    intro b hb
    cases hwidth : padding 8 token.position.toText with
    | nil =>
        rw [hwidth] at hb
        exact (hlabel b hb).1
    | cons d blanks =>
        rw [hwidth] at hb hpadding
        obtain rfl : d = b := Option.some.inj hb
        rw [beq_iff_eq.mp (hpadding d List.mem_cons_self)]
        decide
  rw [toList_row, ofRow?, dropWhile_run (hdigits _) (hcolon _)]
  simp only []
  rw [dropWhile_run (hdigits _) hbehind, takeWhile_run (hdigits _) hbehind,
    takeWhile_run (hdigits _) (hcolon _), dropWhile_run hpadding fun b hb => (hlabel b hb).2,
    takeWhile_kind, drop_kind]
  simp only [String.ofList_toList, ofLabel?_label, digitsValue_repr, Option.map_some]

theorem IsLexical.unbroken {token : Token} (h : token.IsLexical) : '\n' ∉ token.lexeme.toList := by
  by_cases hleaf : token.kind.isLeaf = true
  · exact (h.plain hleaf).unbroken
  have hwords : ∀ entry ∈ keywords, '\n' ∉ entry.1.toList := by decide
  have hsymbols : ∀ entry ∈ symbols, '\n' ∉ entry.1.toList := by decide
  have hprints : ∀ method ∈ printMethods, '\n' ∉ printPath ++ method.toList := by decide
  obtain ⟨hkept, rest, hspelled⟩ := h.spelled
  generalize token.kind = kind at hleaf hkept hspelled
  generalize token.lexeme.toList = lexeme at hspelled
  cases hspelled with
  | printCall hmethod _ => exact hprints _ hmethod
  | keyword hmem _ => exact hwords _ hmem
  | symbol hmem => exact hsymbols _ hmem
  | unknown hc _ => simpa using hc.symm
  | lineComment | blockComment | newline | blanks => cases hkept
  | stringLiteral | charLiteral | identifier | number => exact absurd rfl hleaf

theorem newline_notMem_row {token : Token} (h : token.IsLexical) : '\n' ∉ token.row.toList := by
  have hnumber : ∀ n : Nat, '\n' ∉ n.repr.toList :=
    fun _ hmem => absurd (isAsciiDigit_of_mem_repr hmem) (by decide)
  have hpadding : ∀ width text, '\n' ∉ padding width text :=
    fun _ _ hmem => absurd (eq_blank_of_mem_padding hmem) (by decide)
  rw [toList_row]
  simp only [List.mem_append, List.mem_cons, not_or]
  exact ⟨hnumber _, by decide, hnumber _, hpadding _ _, (label_word token.kind).2.2.1,
    hpadding _ _, h.unbroken⟩

/-- The lines of a listing are its rows; behind the last newline stands nothing. -/
theorem splitOn_listing {tokens : List Token} (h : ∀ token ∈ tokens, token.IsLexical) :
    (listing tokens).toList.splitOn '\n' = tokens.map (fun token => token.row.toList) ++ [[]] := by
  induction tokens with
  | nil => simp [listing]
  | cons token tokens ih =>
      rw [List.forall_mem_cons] at h
      have htext : (listing (token :: tokens)).toList =
          token.row.toList ++ '\n' :: (listing tokens).toList := by
        simp [listing]
      rw [htext, List.splitOn_append_cons_self_of_not_mem (newline_notMem_row h.1), ih h.2]
      rfl

/-- The rows of a listing are read one by one. -/
theorem ofListing?_listing {tokens : List Token} (h : ∀ token ∈ tokens, token.IsLexical) :
    ofListing? (listing tokens) = some tokens := by
  rw [ofListing?, splitOn_listing h, List.dropLast_concat]
  induction tokens with
  | nil => rfl
  | cons token tokens ih =>
      rw [List.map_cons, List.mapM_cons, ofRow?_row, ih fun other hmem => h other (.tail _ hmem)]
      rfl

/-- What is shown of the tokens of a source text when JSON is not asked for. -/
def shown (source : String) : String := (View.ofSource false source .tokens).output

/-- The lines that are shown are the rows of the tokens, one for each and with a newline behind it.
Each row tells its token, so what is shown tells the table. -/
theorem shown_tells_table (source : String) :
    (shown source).toList.splitOn '\n' =
      (tokenize source).map (fun token => token.row.toList) ++ [[]] ∧
    (∀ token ∈ tokenize source, ofRow? token.row.toList = some token) ∧
    ofListing? (shown source) = some (tokenize source) ∧
    ∀ other, shown source = shown other ↔ tokenize source = tokenize other := by
  have hlexical : ∀ text : String, ∀ token ∈ tokenize text, token.IsLexical :=
    fun _ _ hmem => isLexical_of_mem_tokenize hmem
  have hread : ∀ text, ofListing? (shown text) = some (tokenize text) :=
    fun text => ofListing?_listing (hlexical text)
  refine ⟨splitOn_listing (hlexical source), fun token _ => ofRow?_row token, hread source,
    fun other => ⟨fun hshown => ?_, fun htable => congrArg listing htable⟩⟩
  have hsame := hread source
  rw [hshown, hread other] at hsame
  exact (Option.some.inj hsame).symm

end MiniJava.Token
