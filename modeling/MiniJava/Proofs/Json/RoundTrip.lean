import MiniJava.CommandLine.Outcome
import MiniJava.Proofs.Json.Decoding
import MiniJava.Proofs.Json.Keys
import MiniJava.Proofs.Json.Text

/-!
# Syntax trees and JSON text

The tree of a program can be had as text, and every reader of the text gets the same program: the
text is that of one value, no object of the value has two members with one key, and whatever order
the members are kept in, the value is decoded as the program.
-/

namespace MiniJava

open Json

/-- The program whose tree a JSON text is. -/
def Program.ofJsonText? (text : String) : Option Program :=
  (Json.ofText? text).bind Program.ofJson?

theorem Program.ofText?_toJson (program : Program) :
    Json.ofText? (View.ofTree program).output = some program.toJson :=
  ofText?_toText program.toJson (List.all_eq_true.mp (by decide))

theorem Program.ofJson?_toJson (program : Program) :
    Program.ofJson? program.toJson = some program :=
  program.decodes program.toJson (.refl program.toJson program.distinct)

theorem Program.ofJsonText?_ofTree (program : Program) :
    Program.ofJsonText? (View.ofTree program).output = some program := by
  rw [ofJsonText?, program.ofText?_toJson, Option.bind_some, program.ofJson?_toJson]

/-- A text that is no program has no tree either. -/
theorem Program.ofJsonText?_ofSource (json : Bool) (source : String) :
    Program.ofJsonText? (View.ofSource json source .tree).output =
      (Program.ofSource source).toOption := by
  have hempty : Program.ofJsonText? "" = none := by
    rw [ofJsonText?, Json.ofText?, String.toList_empty, tokens?_nil, Option.bind_some, Json.value?]
    rfl
  rw [View.ofSource, View.ofProgram]
  cases Program.ofSource source with
  | error error => exact hempty
  | ok program => exact program.ofJsonText?_ofTree

/-- Every tree is decoded from its JSON value and from its JSON text, so what is said of the tree of
a source text is what is said of the source text. -/
theorem Program.json_round_trip (program : Program) (json : Bool) (source : String) :
    program.toJson.Distinct ∧ Decodes Program.ofJson? program.toJson program ∧
    Program.ofJson? program.toJson = some program ∧
    (View.ofTree program).exitCode = 0 ∧
    Json.ofText? (View.ofTree program).output = some program.toJson ∧
    (let tree := Program.ofJsonText? (View.ofSource json source .tree).output
     tree = (Program.ofSource source).toOption ∧
     tree.map Program.diagnostics = (Program.ofSource source).toOption.map Program.diagnostics ∧
     tree.map Program.toPython = (Program.ofSource source).toOption.map Program.toPython) := by
  have hsource := ofJsonText?_ofSource json source
  exact ⟨program.distinct, program.decodes, program.ofJson?_toJson, rfl, program.ofText?_toJson,
    hsource, congrArg _ hsource, congrArg _ hsource⟩

end MiniJava
