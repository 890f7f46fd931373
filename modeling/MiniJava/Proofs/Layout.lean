import MiniJava.Proofs.Diagnostics.Moved
import MiniJava.Proofs.Grammar.Moved
import MiniJava.Proofs.Lowering.Moved
import MiniJava.Proofs.Token.Relayout

/-!
# Layout does not matter

Two source texts with the same lexemes have the same table but for the positions, and neither
reading, lowering nor checking looks at a position. So a text that is laid out anew is accepted
exactly if the text was, as the same program, and becomes the same Python.
-/

namespace MiniJava

def nowhere (_ : Position) : Position := .start

theorem movedTokens_eq_of_keys {tokens other : List Token}
    (h : tokens.map Token.key = other.map Token.key) :
    movedTokens nowhere tokens = movedTokens nowhere other := by
  have hkeys : ∀ list : List Token, movedTokens nowhere list =
      (list.map Token.key).map fun key => ⟨key.1, key.2, .start⟩ := by
    intro list
    rw [List.map_map]
    rfl
  rw [hkeys, hkeys, h]

def Failure.construct? : Failure → Option Construct
  | .untranslatable error => some error.construct
  | .overflow => none

namespace Program

open Grammar

/-- What reading gives for two texts that are alike: errors that are the same but for their
position, or programs that are the same but for positions, that become the same Python or fail on
the same construct, and that have the same kinds of problems in the same order. -/
inductive Alike : Except SyntaxError Program → Except SyntaxError Program → Prop
  | error {error other : SyntaxError} : error.unplaced = other.unplaced →
      Alike (.error error) (.error other)
  | ok {program other : Program} : program.unplaced = other.unplaced →
      program.toPython.mapError Failure.construct? =
        other.toPython.mapError Failure.construct? →
      program.diagnostics.map Diagnostic.kind = other.diagnostics.map Diagnostic.kind →
      Alike (.ok program) (.ok other)

theorem toPython_unplaced (program : Program) :
    program.unplaced.toPython.mapError Failure.construct? =
      program.toPython.mapError Failure.construct? := by
  rw [unplaced, toPython_moved]
  cases program.toPython with
  | ok text => rfl
  | error failure => cases failure <;> rfl

/-- Programs that are the same but for positions cannot be told apart behind the parser. -/
theorem alike_of_unplaced {program other : Program} (h : program.unplaced = other.unplaced) :
    Alike (.ok program) (.ok other) := by
  refine .ok h ?_ ?_
  · rw [← toPython_unplaced, h, toPython_unplaced]
  · rw [← diagnosticKinds_moved nowhere program, ← diagnosticKinds_moved nowhere other]
    exact congrArg (fun moved => moved.diagnostics.map Diagnostic.kind) h

/-- Tables with the same kinds and lexemes are read alike. -/
theorem alike_of_keys {tokens other : List Token} (h : tokens.map Token.key = other.map Token.key) :
    Alike (ofTokens tokens) (ofTokens other) := by
  have hmoved : movedResult nowhere (Program.moved nowhere) (ofTokens tokens) =
      movedResult nowhere (Program.moved nowhere) (ofTokens other) := by
    rw [← ofTokens_moved, ← ofTokens_moved, movedTokens_eq_of_keys h]
  cases hfirst : ofTokens tokens with
  | error error =>
      cases hsecond : ofTokens other with
      | error otherError =>
          rw [hfirst, hsecond] at hmoved
          exact .error (Except.error.inj hmoved)
      | ok program =>
          rw [hfirst, hsecond] at hmoved
          cases hmoved
  | ok program =>
      cases hsecond : ofTokens other with
      | error otherError =>
          rw [hfirst, hsecond] at hmoved
          cases hmoved
      | ok otherProgram =>
          rw [hfirst, hsecond] at hmoved
          exact alike_of_unplaced (Except.ok.inj hmoved)

/-- A text that joins the lexemes of a clean table with layout has the table's kinds and lexemes,
and it is accepted, translated and checked alike. -/
theorem relayout_alike {source laid : String} (hclean : Token.Clean (tokenize source))
    (hjoined : Token.Joined ((tokenize source).map fun token => token.lexeme.toList) laid.toList) :
    (tokenize laid).map Token.key = (tokenize source).map Token.key ∧
      Alike (ofSource source) (ofSource laid) := by
  have hkeys := Token.tokenize_joined hclean hjoined
  exact ⟨hkeys, alike_of_keys hkeys.symm⟩

theorem relayout_alike_sum :
    let source := "int x=1.5+y;// sum"
    let laid := "int\tx\n= 1.5\r\n+ y\n\n;"
    Token.Clean (tokenize source) ∧
      Token.Joined ((tokenize source).map fun token => token.lexeme.toList) laid.toList ∧
      (tokenize laid).map Token.key = (tokenize source).map Token.key ∧
      Alike (ofSource source) (ofSource laid) := by
  dsimp only
  have hlexemes : (tokenize "int x=1.5+y;// sum").map (fun token => token.lexeme.toList) =
      [['i', 'n', 't'], ['x'], ['='], ['1', '.', '5'], ['+'], ['y'], [';']] := by
    decide +kernel
  have hascii : (tokenize "int x=1.5+y;// sum").all
      (fun token => token.lexeme.toList.all fun c => decide (c.toNat < 128)) = true := by
    decide +kernel
  have hclean : Token.Clean (tokenize "int x=1.5+y;// sum") := by
    refine ⟨by decide +kernel, fun token hmem _ c hc => ?_⟩
    exact of_decide_eq_true (List.all_eq_true.mp (List.all_eq_true.mp hascii token hmem) c hc)
  have hlaid : "int\tx\n= 1.5\r\n+ y\n\n;".toList = ['i', 'n', 't', '\t', 'x', '\n', '=', ' ',
      '1', '.', '5', '\r', '\n', '+', ' ', 'y', '\n', '\n', ';'] := by
    decide +kernel
  have hjoined : Token.Joined
      [['i', 'n', 't'], ['x'], ['='], ['1', '.', '5'], ['+'], ['y'], [';']]
      "int\tx\n= 1.5\r\n+ y\n\n;".toList := by
    rw [hlaid]
    exact .more (show ['\t'] ≠ [] by decide) (List.all_eq_true.mp rfl)
      (.more (show ['\n'] ≠ [] by decide) (List.all_eq_true.mp rfl)
        (.more (show [' '] ≠ [] by decide) (List.all_eq_true.mp rfl)
          (.more (show ['\r', '\n'] ≠ [] by decide) (List.all_eq_true.mp rfl)
            (.more (show [' '] ≠ [] by decide) (List.all_eq_true.mp rfl)
              (.more (show ['\n', '\n'] ≠ [] by decide) (List.all_eq_true.mp rfl) (.one [';']))))))
  rw [← hlexemes] at hjoined
  exact ⟨hclean, hjoined, relayout_alike hclean hjoined⟩

end Program

end MiniJava
