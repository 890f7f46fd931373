import MiniJava.Proofs.Grammar.Locality
import MiniJava.Proofs.Grammar.Rounds

/-!
# Progress through a table

Readers are given the tokens that are left; a cursor is the place in the whole table where these
begin. The readers of statements, members, classes and expressions move the cursor on and never
behind the end of the table. So the loops that call them end, and a table is a program or has an
error at one of its places.
-/

namespace MiniJava.Grammar

variable {α : Type}

/-- From a place of a table the reader gets to a later place, or it finds an error at a place that
is not an earlier one. -/
def Progresses (reader : List Token → Outcome α) : Prop :=
  ∀ (table : List Token) (cursor : Nat), cursor ≤ table.length →
    match reader (table.drop cursor) with
    | .ok (_, rest) => ∃ next, cursor < next ∧ next ≤ table.length ∧ rest = table.drop next
    | .error error => ∃ expected next, cursor ≤ next ∧ next ≤ table.length ∧
        error = .atNext expected (table.drop next)

/-- What is left behind a place of a table begins at a place of it. -/
theorem eq_drop_of_suffix {table rest : List Token} {cursor : Nat}
    (h : rest <:+ table.drop cursor) : rest = table.drop (table.length - rest.length) :=
  List.suffix_iff_eq_drop.mp (h.trans (List.drop_suffix cursor table))

theorem progresses {reader : (tokens : List Token) → Reading α tokens.length}
    (hstops : ∀ tokens, Stops tokens (reader tokens).outcome) :
    Progresses fun tokens => (reader tokens).outcome := by
  intro table cursor hcursor
  have hread := hstops (table.drop cursor)
  have hshort := Outcome.Shortens.of_reading (reader (table.drop cursor))
  dsimp only
  generalize (reader (table.drop cursor)).outcome = outcome at hread hshort ⊢
  rcases outcome with error | ⟨value, rest⟩
  · obtain ⟨expected, rest, hrest, herror⟩ := hread
    have hle := hrest.suffix.length_le
    rw [List.length_drop] at hle
    refine ⟨expected, table.length - rest.length, by omega, Nat.sub_le _ _, ?_⟩
    rw [← eq_drop_of_suffix hrest.suffix, herror]
  · have hlt := hshort value rest rfl
    rw [List.length_drop] at hlt
    exact ⟨table.length - rest.length, by omega, Nat.sub_le _ _, eq_drop_of_suffix hread.suffix⟩

/-- A table is a program, or it has its first error at one of its places or at its end. -/
theorem exists_program_or_error (tokens : List Token) :
    (∃ program, Program.ofTokens tokens = .ok program) ∨ ∃ expected place,
      place ≤ tokens.length ∧
        Program.ofTokens tokens = .error (.atNext expected (tokens.drop place)) := by
  rcases hprogram : Program.ofTokens tokens with error | program
  · obtain ⟨expected, rest, hrest, rfl⟩ := Program.stops_of_rejected hprogram
    refine .inr ⟨expected, tokens.length - rest.length, Nat.sub_le _ _, ?_⟩
    rw [← List.suffix_iff_eq_drop.mp hrest.suffix]
  · exact .inl ⟨program, rfl⟩

/-- A table is read to its end or to an error. The readers of statements, members, classes and
expressions move the cursor on, but not behind the end of the table, and every loop, the one over
the items and those inside it, ends within one round more than there are tokens in front of it. -/
theorem reading_ends :
    (∀ tokens, ∃ outcome,
      (gathering (· ++ ·) itemPart).run (tokens.length + 1) [] tokens = some outcome ∧
        Program.ofTokens tokens = outcome.map fun read => ⟨read.1⟩) ∧
    (∀ tokens, (∃ program, Program.ofTokens tokens = .ok program) ∨ ∃ expected place,
      place ≤ tokens.length ∧
        Program.ofTokens tokens = .error (.atNext expected (tokens.drop place))) ∧
    Progresses (fun tokens => (statement tokens).outcome) ∧
    (∀ className, Progresses fun tokens => (member className tokens).outcome) ∧
    (∀ mods, Progresses fun tokens => (classDecl mods tokens).outcome) ∧
    Progresses (fun tokens => (expression tokens).outcome) ∧
    (∀ least, Progresses fun tokens => (binary least tokens).outcome) ∧
    Progresses (fun tokens => (unary tokens).outcome) ∧
    (gathering (· ++ ·) modifierPart).Ends [] leading ∧
    (∀ className, (gathering (· ++ ·) (memberPart className)).Ends []
      fun tokens => (members className tokens).outcome) ∧
    (gathering (· ++ ·) blockPart).Ends [] (fun tokens => (blockBody tokens).outcome) ∧
    (gathering (· ++ ·) casePart).Ends [] (fun tokens => (caseBody tokens).outcome) ∧
    (gathering SwitchBody.join sectionPart).Ends ⟨[], none⟩
      (fun tokens => (switchBody tokens).outcome) ∧
    (gathering (· ++ ·) catchPart).Ends [] (fun tokens => (catches tokens).outcome) ∧
    (gathering (· ++ ·) (listedPart fun tokens => (param tokens).outcome)).Ends []
      (fun tokens => (params tokens).outcome) ∧
    (gathering (· ++ ·) (listedPart fun tokens => (expression tokens).outcome)).Ends []
      (fun tokens => (expressions tokens).outcome) ∧
    (gathering (· + ·) bracketPart).Ends 0 (fun tokens => (dimensions tokens).outcome) ∧
    aheadRound.Ends () nameFollows ∧
    ∀ least lhs, (climbRound least).Ends lhs fun tokens => (climb least lhs tokens).outcome := by
  refine ⟨fun tokens => ⟨_, items_loop tokens, ?_⟩, exists_program_or_error,
    progresses fun tokens => (statement_local [] tokens).stops,
    fun className => progresses fun tokens => (member_local [] className tokens).stops,
    fun mods => progresses fun tokens => (classDecl_local [] mods tokens).stops,
    progresses fun tokens => (expression_local [] tokens).stops,
    fun least => progresses fun tokens => (binary_local [] least tokens).stops,
    progresses fun tokens => (unary_local [] tokens).stops,
    modifiers_loop, members_loop, blockBody_loop, caseBody_loop, switchBody_loop, catches_loop,
    params_loop, expressions_loop, dimensions_loop, nameFollows_loop, climb_loop⟩
  dsimp only [Program.ofTokens]
  cases items tokens <;> rfl

end MiniJava.Grammar
