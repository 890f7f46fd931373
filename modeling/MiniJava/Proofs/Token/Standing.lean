import MiniJava.Proofs.Token.Tiling

/-!
# Where lexemes stand

Every lexeme of a text, skipped or not, is what is read at its position. What holds of all that is
read in front of some text holds of the tokens of a table and what stands behind them.
-/

namespace MiniJava.Token

open Lexeme

/-- A lexeme is read in front of what stands behind it. -/
theorem exists_read_of_mem_scan (p : Position) (text : List Char) :
    ∀ token ∈ scan p text, ∃ front c rest n, text = front ++ c :: rest ∧
      token.position = p.advance front ∧ read? c rest = some (token.kind, n) ∧
      token.lexeme.toList = c :: rest.take n := by
  induction p, text using scan_read_induction with
  | nil p => simp
  | cons p c rest kind n hread ih =>
      rw [scan_cons p hread, List.forall_mem_cons]
      refine ⟨⟨[], c, rest, n, rfl, rfl, hread, String.toList_ofList⟩, fun token hmem => ?_⟩
      obtain ⟨front, d, tail, m, hsplit, hposition, hlater, hlexeme⟩ := ih token hmem
      refine ⟨c :: rest.take n ++ front, d, tail, m, ?_, ?_, hlater, hlexeme⟩
      · rw [List.append_assoc, ← hsplit, List.cons_append, List.take_append_drop]
      · rw [Position.advance_append, hposition]

/-- What stands behind a token in a source text. -/
def behind (token : Token) (source : String) : List Char :=
  (token.position.textAt source.toList).drop token.lexeme.toList.length

variable {source : String} {token : Token}

/-- A token's lexeme is read at the token's position. -/
theorem exists_read (h : token ∈ scan .start source.toList) :
    ∃ c rest n, token.position.textAt source.toList = c :: rest ∧
      read? c rest = some (token.kind, n) ∧ token.lexeme.toList = c :: rest.take n ∧
      token.behind source = rest.drop n := by
  obtain ⟨front, c, rest, n, hsource, hposition, hread, hlexeme⟩ :=
    exists_read_of_mem_scan .start source.toList token h
  have htext : token.position.textAt source.toList = c :: rest := by
    rw [hposition, hsource, ← Position.behind_nil, ← Position.behind_append, List.nil_append,
      Position.textAt_behind]
  refine ⟨c, rest, n, htext, hread, hlexeme, ?_⟩
  have hsplit : c :: rest = c :: rest.take n ++ rest.drop n := by
    rw [List.cons_append, List.take_append_drop]
  rw [behind, htext, hlexeme, hsplit, List.drop_left]

theorem spelled_behind (h : token ∈ scan .start source.toList) :
    Spelled token.kind token.lexeme.toList (token.behind source) := by
  obtain ⟨c, rest, n, -, hread, hlexeme, hbehind⟩ := exists_read h
  rw [hlexeme, hbehind]
  exact spelled_of_read? hread

theorem mem_scan_of_mem_tokenize (h : token ∈ tokenize source) :
    token ∈ scan .start source.toList ∧ token.kind.isSkipped = false := by
  obtain ⟨hscan, hkept⟩ := List.mem_filter.mp h
  exact ⟨hscan, by simpa using hkept⟩

end MiniJava.Token
