import MiniJava.Proofs.Grammar.Anchored
import MiniJava.Proofs.Grammar.Locality
import MiniJava.Proofs.Layout

/-!
# Positions are faithful

Every position that a source text leads to is the position of one of its tokens: those of the nodes
of its program, those of the diagnostics and of a construct that cannot be translated, and that of
the error if the text is rejected.

Neither reading, lowering nor checking looks at a position, so relabelling the positions of a table
relabels everything behind it. A relabelling that keeps the positions of the table and changes all
others changes nothing, so none of these others is ever reported.
-/

namespace MiniJava

/-- A relabelling of positions that keeps the positions of a table. -/
def Keeps (f : Position → Position) (tokens : List Token) : Prop :=
  ∀ token ∈ tokens, f token.position = token.position

theorem movedTokens_of_keeps {f : Position → Position} {tokens : List Token}
    (h : Keeps f tokens) : movedTokens f tokens = tokens := by
  have hsame : ∀ token ∈ tokens, token.moved f = token := by
    intro token hmem
    rw [Token.moved, h token hmem]
  rw [movedTokens, List.map_congr_left hsame, List.map_id']

/-- A position that no relabelling of the other positions changes is the position of a token. -/
theorem exists_token_of_keeps {tokens : List Token} {p : Position}
    (h : ∀ f, Keeps f tokens → f p = p) : ∃ token ∈ tokens, token.position = p := by
  classical
  by_contra hnone
  obtain ⟨elsewhere, helsewhere⟩ : ∃ elsewhere : Position, elsewhere ≠ p :=
    ⟨⟨p.line + 1, p.column⟩, fun heq => Nat.succ_ne_self _ (congrArg Position.line heq)⟩
  have hkeeps : Keeps (fun q => if q = p then elsewhere else q) tokens := by
    intro token hmem
    exact if_neg fun heq => hnone ⟨token, hmem, heq⟩
  have hfixed := h _ hkeeps
  rw [if_pos rfl] at hfixed
  exact helsewhere hfixed

theorem Lexeme.Spelled.exists_unknown {lexeme rest : List Char} (h : Spelled .error lexeme rest) :
    ∃ c, lexeme = [c] := by
  have hkeywords : ∀ entry ∈ keywords, entry.2 ≠ .error := by decide
  cases h with
  | unknown _ _ => exact ⟨_, rfl⟩
  | keyword hmem _ => exact absurd rfl (hkeywords _ hmem)
  | symbol hmem => exact absurd (kind_mem_of_symbol hmem) (by decide)

/-- The token of an invalid character is this character. -/
theorem Token.lexeme_of_error {token : Token} (h : token.IsLexical) (hkind : token.kind = .error) :
    ∃ c, token.lexeme.toList = [c] := by
  obtain ⟨_, rest, hspelled⟩ := h.spelled
  rw [hkind] at hspelled
  exact hspelled.exists_unknown

/-- Where a diagnostic points: at what is wrong, and at the declaration it cites. -/
def Diagnostic.positions (diagnostic : Diagnostic) : List Position :=
  diagnostic.position ::
    match diagnostic.problem with
    | .redeclared _ previous => [previous]
    | _ => []

theorem Diagnostic.fixed_of_moved {f : Position → Position} (diagnostic : Diagnostic)
    (h : diagnostic.moved f = diagnostic) : ∀ p ∈ diagnostic.positions, f p = p := by
  obtain ⟨problem, position⟩ := diagnostic
  have hposition : f position = position := congrArg Diagnostic.position h
  cases problem with
  | redeclared name previous =>
      have hproblem : Problem.redeclared name (f previous) = .redeclared name previous :=
        congrArg Diagnostic.problem h
      rintro p (_ | ⟨_, _ | ⟨_, hp⟩⟩)
      · exact hposition
      · exact (Problem.redeclared.inj hproblem).2
      · cases hp
  | _ =>
      rintro p (_ | ⟨_, hp⟩)
      · exact hposition
      · cases hp

/-- The token of the table that an error is about. -/
def SyntaxError.StandsIn (tokens : List Token) : SyntaxError → Prop
  | .invalidCharacter char position =>
    ∃ token ∈ tokens, token.kind = .error ∧ token.lexeme.toList = [char] ∧
      token.position = position
  | .unexpectedToken _ found position =>
    ∃ token ∈ tokens, token.lexeme = found ∧ token.position = position
  | .unexpectedEnd _ => True

theorem SyntaxError.standsIn_atNext {tokens rest : List Token} (expected : Expected)
    (hlexical : ∀ token ∈ tokens, token.IsLexical) (hrest : rest <:+ tokens) :
    (atNext expected rest).StandsIn tokens := by
  cases rest with
  | nil => trivial
  | cons token rest =>
      have hmem : token ∈ tokens := hrest.subset List.mem_cons_self
      by_cases hkind : token.kind = .error
      · obtain ⟨c, hc⟩ := Token.lexeme_of_error (hlexical token hmem) hkind
        rw [atNext, if_pos hkind, hc]
        exact ⟨token, hmem, hkind, hc, rfl⟩
      · rw [atNext, if_neg hkind]
        exact ⟨token, hmem, rfl, rfl⟩

namespace Program

open Grammar

variable {source : String} {program : Program}

/-- A relabelling that keeps the positions of a source text changes no position of its program. -/
theorem moved_of_keeps (h : ofSource source = .ok program) {f : Position → Position}
    (hkeeps : Keeps f (tokenize source)) : program.moved f = program := by
  have hmoved := ofTokens_moved f (tokenize source)
  rw [movedTokens_of_keeps hkeeps, show ofTokens (tokenize source) = .ok program from h] at hmoved
  exact (Except.ok.inj hmoved).symm

theorem exists_token_of_diagnostic (h : ofSource source = .ok program) {diagnostic : Diagnostic}
    (hmem : diagnostic ∈ program.diagnostics) {p : Position} (hp : p ∈ diagnostic.positions) :
    ∃ token ∈ tokenize source, token.position = p := by
  refine exists_token_of_keeps fun f hkeeps => ?_
  have hsame := diagnostics_moved f program
  rw [moved_of_keeps h hkeeps] at hsame
  have hfixed : ∀ found ∈ program.diagnostics, found.moved f = found := by
    have hid : program.diagnostics.map (Diagnostic.moved f) = program.diagnostics.map id := by
      rw [← hsame, List.map_id]
    exact List.map_inj_left.mp hid
  exact diagnostic.fixed_of_moved (hfixed diagnostic hmem) p hp

theorem exists_token_of_untranslatable (h : ofSource source = .ok program)
    {error : Untranslatable} (herror : program.toPython = .error (.untranslatable error)) :
    ∃ token ∈ tokenize source, token.position = error.position := by
  refine exists_token_of_keeps fun f hkeeps => ?_
  have hsame := toPython_moved f program
  rw [moved_of_keeps h hkeeps, herror] at hsame
  have hmoved := Failure.untranslatable.inj (Except.error.inj hsame)
  exact (congrArg Untranslatable.position hmoved).symm

theorem standsIn_of_rejected {error : SyntaxError} (h : ofSource source = .error error) :
    error.StandsIn (tokenize source) := by
  obtain ⟨expected, rest, hrest, rfl⟩ := stops_of_rejected h
  exact SyntaxError.standsIn_atNext expected (fun _ => Token.isLexical_of_mem_tokenize) hrest.suffix

/-- Every position that is given out is the position of the token it is about. -/
theorem positions_faithful (source : String) :
    match ofSource source with
    | .ok program =>
      (∀ anchor ∈ program.anchors, ∃ token ∈ tokenize source, anchor.Holds token) ∧
        (∀ diagnostic ∈ program.diagnostics, ∀ p ∈ diagnostic.positions,
          ∃ token ∈ tokenize source, token.position = p) ∧
        ∀ error, program.toPython = .error (.untranslatable error) →
          ∃ token ∈ tokenize source, token.position = error.position
    | .error error => error.StandsIn (tokenize source) := by
  cases h : ofSource source with
  | error error => exact standsIn_of_rejected h
  | ok program =>
      exact ⟨fun _ => (anchored_of_source h).exists_token,
        fun _ hmem _ => exists_token_of_diagnostic h hmem,
        fun _ => exists_token_of_untranslatable h⟩

end Program

end MiniJava
