import MiniJava.Proofs.Token.StandsAlone

/-!
# Laying a text out anew

The lexemes of a table can be written down with any layout between them, and the text that results
has the same table but for the positions. A table with errors is left out, and so are numbers with
digits that are not ASCII: such a digit may cut off the keyword in front of it.
-/

namespace MiniJava

open Text

namespace Token

open Lexeme

/-- What is left of a token without its position. -/
def key (token : Token) : TokenKind × String := (token.kind, token.lexeme)

/-- A table without errors, with ASCII digits only. -/
structure Clean (tokens : List Token) : Prop where
  noError : ∀ token ∈ tokens, token.kind ≠ .error
  ascii : ∀ token ∈ tokens, token.kind = .number → ∀ c ∈ token.lexeme.toList, c.toNat < 128

def kept (tokens : List Token) : List Token := tokens.filter fun token => !token.kind.isSkipped

theorem kept_cons_of_kept {token : Token} (h : token.kind.isSkipped = false) (rest : List Token) :
    kept (token :: rest) = token :: kept rest := List.filter_cons_of_pos (by simp [h])

theorem kept_cons_of_skipped {token : Token} (h : token.kind.isSkipped = true)
    (rest : List Token) : kept (token :: rest) = kept rest :=
  List.filter_cons_of_neg (by simp [h])

/-- A word character that identifiers do not have begins the next token of a table. -/
theorem exists_next_of_word (p : Position) (text : List Char) :
    ∀ c ∈ text.head?, isWord c = true → isIdentifierPart c = false →
      ∃ next ∈ (kept (scan p text)).head?, (next.kind = .number ∨ next.kind = .error) ∧
        c ∈ next.lexeme.toList.head? := by
  cases text with
  | nil => simp
  | cons d rest =>
      intro c hc hword hpart
      obtain rfl : d = c := Option.some.inj hc
      obtain ⟨kind, n, hread⟩ := exists_read? d rest
      have hkind := (spelled_of_read? hread).kind_of_word rfl hword hpart
      have hkept : kind.isSkipped = false := by rcases hkind with rfl | rfl <;> rfl
      rw [scan_cons p hread, kept_cons_of_kept hkept]
      exact ⟨_, rfl, hkind, by rw [String.toList_ofList]; rfl⟩

theorem Clean.tail {token : Token} {rest : List Token} (h : Clean (token :: rest)) : Clean rest :=
  ⟨(List.forall_mem_cons.mp h.noError).2, (List.forall_mem_cons.mp h.ascii).2⟩

/-- In a clean table no keyword is cut off. -/
theorem plain_of_clean {p : Position} {text lexeme : List Char}
    (hclean : Clean (kept (scan p text))) (h : Spelled .identifier lexeme text) :
    keywords.lookup (String.ofList lexeme) = none := by
  by_contra hkeyword
  obtain ⟨c, hc, hword, hpart⟩ := exists_word_behind h hkeyword
  obtain ⟨next, hnext, hkind, hhead⟩ := exists_next_of_word p text c hc hword hpart
  have hmem := List.mem_of_head? hnext
  rcases hkind with hnumber | herror
  · have hsmall := hclean.ascii next hmem hnumber c (List.mem_of_head? hhead)
    rw [isWord, if_pos hsmall, hpart] at hword
    cases hword
  · exact hclean.noError next hmem herror

theorem standsAlone_of_mem_kept (p : Position) (text : List Char)
    (hclean : Clean (kept (scan p text))) :
    ∀ token ∈ kept (scan p text), StandsAlone token.kind token.lexeme.toList := by
  induction p, text using scan_read_induction with
  | nil p => simp [kept]
  | cons p c rest kind n hread ih =>
      rw [scan_cons p hread] at hclean ⊢
      cases hkind : kind.isSkipped with
      | true =>
          rw [kept_cons_of_skipped hkind] at hclean ⊢
          exact ih hclean
      | false =>
          rw [kept_cons_of_kept hkind] at hclean ⊢
          refine List.forall_mem_cons.mpr ⟨?_, ih hclean.tail⟩
          have herror : kind ≠ .error := hclean.noError _ (List.mem_cons_self ..)
          rw [String.toList_ofList]
          refine standsAlone_of_read? hread hkind herror fun hidentifier => ?_
          subst hidentifier
          exact plain_of_clean hclean.tail (spelled_of_read? hread)

def keysAt (p : Position) (text : List Char) : List (TokenKind × String) :=
  (kept (scan p text)).map key

theorem keysAt_cons (p : Position) {c : Char} {rest : List Char} {kind : TokenKind} {n : Nat}
    (hread : read? c rest = some (kind, n)) :
    keysAt p (c :: rest) =
      (if kind.isSkipped then [] else [(kind, String.ofList (c :: rest.take n))]) ++
        keysAt (p.advance (c :: rest.take n)) (rest.drop n) := by
  rw [keysAt, scan_cons p hread]
  cases hkind : kind.isSkipped with
  | true =>
      rw [kept_cons_of_skipped hkind]
      rfl
  | false =>
      rw [kept_cons_of_kept hkind]
      rfl

/-- What a text reads as does not depend on where it begins. -/
theorem keysAt_eq (p q : Position) (text : List Char) : keysAt p text = keysAt q text := by
  induction p, text using scan_read_induction generalizing q with
  | nil p => rw [keysAt, keysAt, scan_nil, scan_nil]
  | cons p c rest kind n hread ih => rw [keysAt_cons p hread, keysAt_cons q hread, ih]

theorem keysAt_skipped (p : Position) {c : Char} {rest : List Char} {kind : TokenKind} {n : Nat}
    (hread : read? c rest = some (kind, n)) (h : kind.isSkipped = true) :
    keysAt p (c :: rest) = keysAt p (rest.drop n) := by
  rw [keysAt_cons p hread, if_pos h, List.nil_append, keysAt_eq _ p]

theorem read?_newline (rest : List Char) : read? '\n' rest = some (.newline, 0) :=
  read?_of_rule [comment] newline [blanks, stringLiteral, charLiteral, printCall, word, number,
    symbol, unknown] rfl (by simp [comment_eq_none]) rfl

theorem read?_blank {c : Char} (rest : List Char) (h : isBlank c = true) :
    read? c rest = some (.whitespace, (rest.takeWhile isBlank).length) := by
  have hc : c = ' ' ∨ c = '\t' ∨ c = '\r' := by simpa [isBlank, or_assoc] using h
  refine read?_of_rule [comment, newline] blanks [stringLiteral, charLiteral, printCall, word,
    number, symbol, unknown] rfl ?_ (if_pos h)
  intro other hother
  simp only [List.mem_cons, List.not_mem_nil, or_false] at hother
  rcases hother with rfl | rfl
  · refine comment_eq_none rest ?_
    rcases hc with rfl | rfl | rfl <;> decide
  · refine if_neg ?_
    rcases hc with rfl | rfl | rfl <;> decide

theorem keysAt_blank (p : Position) {c : Char} (rest : List Char) (h : isBlank c = true) :
    keysAt p (c :: rest) = keysAt p (rest.dropWhile isBlank) := by
  have hsplit := List.takeWhile_append_dropWhile (p := isBlank) (l := rest)
  have hdrop : rest.drop (rest.takeWhile isBlank).length = rest.dropWhile isBlank := by
    nth_rewrite 2 [← hsplit]
    exact List.drop_left
  rw [keysAt_skipped p (read?_blank rest h) rfl, hdrop]

theorem keysAt_layout (p : Position) {c : Char} (rest : List Char) (h : isLayout c = true) :
    keysAt p (c :: rest) = keysAt p rest := by
  rw [isLayout, Bool.or_eq_true, beq_iff_eq] at h
  rcases h with rfl | hblank
  · exact keysAt_skipped p (read?_newline rest) rfl
  · rw [keysAt_blank p rest hblank]
    cases rest with
    | nil => rfl
    | cons d rest =>
        cases hd : isBlank d with
        | false => rw [List.dropWhile_cons_of_neg (by simp [hd])]
        | true => rw [List.dropWhile_cons_of_pos hd, keysAt_blank p rest hd]

theorem keysAt_gap (p : Position) {gap : List Char} (rest : List Char)
    (h : ∀ c ∈ gap, isLayout c = true) : keysAt p (gap ++ rest) = keysAt p rest := by
  induction gap with
  | nil => rfl
  | cons c gap ih =>
      obtain ⟨hc, hgap⟩ := List.forall_mem_cons.mp h
      rw [List.cons_append, keysAt_layout p _ hc, ih hgap]

/-- Lexemes written in their order with layout between any two. -/
inductive Joined : List (List Char) → List Char → Prop
  | none : Joined [] []
  | one (lexeme : List Char) : Joined [lexeme] lexeme
  | more {lexeme gap next text : List Char} {rest : List (List Char)} : gap ≠ [] →
      (∀ c ∈ gap, isLayout c = true) → Joined (next :: rest) text →
      Joined (lexeme :: next :: rest) (lexeme ++ (gap ++ text))

theorem keysAt_standsAlone (p : Position) {kind : TokenKind} {lexeme more : List Char}
    (h : StandsAlone kind lexeme) (hkept : kind.isSkipped = false) (hmore : BeginsLayout more) :
    keysAt p (lexeme ++ more) = (kind, String.ofList lexeme) :: keysAt p more := by
  obtain ⟨c, body, rfl, hread⟩ := h
  rw [List.cons_append, keysAt_cons p (hread more hmore), List.take_left, List.drop_left, hkept,
    keysAt_eq _ p]
  rfl

theorem keysAt_joined (p : Position) {tokens : List Token} {text : List Char}
    (hstands : ∀ token ∈ tokens, StandsAlone token.kind token.lexeme.toList)
    (hkept : ∀ token ∈ tokens, token.kind.isSkipped = false)
    (h : Joined (tokens.map fun token => token.lexeme.toList) text) :
    keysAt p text = tokens.map key := by
  induction tokens generalizing text with
  | nil =>
      cases h
      rw [keysAt, scan_nil]
      rfl
  | cons token tokens ih =>
      obtain ⟨hfirst, hstands⟩ := List.forall_mem_cons.mp hstands
      obtain ⟨hfirstKept, hkept⟩ := List.forall_mem_cons.mp hkept
      have hkey : (token.kind, String.ofList token.lexeme.toList) = token.key := by
        rw [String.ofList_toList]
        rfl
      cases tokens with
      | nil =>
          cases h
          have hend : BeginsLayout [] := by simp [BeginsLayout]
          have hread := keysAt_standsAlone p hfirst hfirstKept hend
          rw [List.append_nil] at hread
          rw [hread, keysAt, scan_nil, hkey]
          rfl
      | cons next tokens =>
          cases h with
          | @more _ gap _ behind _ hgap hlayout hrest =>
              have hbegins : BeginsLayout (gap ++ behind) := by
                cases gap with
                | nil => exact absurd rfl hgap
                | cons c gap =>
                    intro b hb
                    cases hb
                    exact hlayout c (List.mem_cons_self ..)
              rw [keysAt_standsAlone p hfirst hfirstKept hbegins, keysAt_gap p _ hlayout,
                ih hstands hkept hrest, hkey]
              rfl

/-- A text that joins the lexemes of a clean table with layout has the same table but for the
positions. -/
theorem tokenize_joined {source laid : String} (hclean : Clean (tokenize source))
    (h : Joined ((tokenize source).map fun token => token.lexeme.toList) laid.toList) :
    (tokenize laid).map key = (tokenize source).map key := by
  refine keysAt_joined .start (standsAlone_of_mem_kept .start source.toList hclean) ?_ h
  intro token hmem
  simpa using (List.mem_filter.mp hmem).2

end Token

end MiniJava
