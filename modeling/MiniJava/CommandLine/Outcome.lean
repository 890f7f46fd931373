import MiniJava.CommandLine.Command
import MiniJava.Demo
import MiniJava.Diagnostics.Program
import MiniJava.Grammar.Program
import MiniJava.Greeting.Profile
import MiniJava.Json.Layout
import MiniJava.Json.Tree
import MiniJava.Lowering.Program
import MiniJava.SourceFile

/-!
# Outcomes of commands

What a command writes to its output, and its exit code: zero for success, one for a source text
that cannot be read, parsed or lowered or that has diagnostics, two for bad usage, and one hundred
and one for a run that is cut off. Diagnostics are written before the command fails; any other
failure writes nothing.
-/

namespace MiniJava

structure Outcome where
  exitCode : Nat
  output : String
deriving DecidableEq, Repr, Inhabited

namespace Outcome

def success (output : String) : Outcome := ⟨0, output⟩

def failure : Outcome := ⟨1, ""⟩

def badUsage : Outcome := ⟨2, ""⟩

def cutOff : Outcome := ⟨101, ""⟩

end Outcome

def unlines (lines : List String) : String := String.join (lines.map fun line => line ++ "\n")

namespace View

def showTokens (json : Bool) (tokens : List Token) : String :=
  if json then (Json.array (tokens.map Token.toJson)).toText ++ "\n" else Token.listing tokens

def showDiagnostics (json : Bool) (diagnostics : List Diagnostic) : String :=
  if json then (Json.array (diagnostics.map Diagnostic.toJson)).toText ++ "\n"
  else if diagnostics.isEmpty then "No problems found\n"
  else unlines (diagnostics.map Diagnostic.toText)

/-- The outcome for a source text that has to be a program. -/
def ofProgram (source : String) (outcome : Program → Outcome) : Outcome :=
  match Program.ofSource source with
  | .error _ => .failure
  | .ok program => outcome program

def ofTree (program : Program) : Outcome := .success (program.toJson.toText ++ "\n")

def ofDiagnostics (json : Bool) (program : Program) : Outcome :=
  ⟨if program.diagnostics.isEmpty then 0 else 1, showDiagnostics json program.diagnostics⟩

def ofPython (program : Program) : Outcome :=
  match program.toPython with
  | .error (.untranslatable _) => .failure
  | .error .overflow => .cutOff
  | .ok text => .success text

def ofSource (json : Bool) (source : String) : View → Outcome
  | tokens => .success (showTokens json (tokenize source))
  | tree => ofProgram source ofTree
  | diagnostics => ofProgram source (ofDiagnostics json)
  | python => ofProgram source ofPython

end View

namespace Command

/-- Runs a command; `read` gives the text of a file. -/
def run (read : String → Except ReadError String) : Command → Outcome
  | .greet => .success (unlines Greeting.Profile.demo.lines)
  | .view shown none json => View.ofSource json demoSource shown
  | .view shown (some path) json =>
    match read path with
    | .error _ => .failure
    | .ok source => View.ofSource json source shown

def runArgs (read : String → Except ReadError String) (args : List String) : Outcome :=
  match ofArgs? args with
  | none => .badUsage
  | some command => command.run read

end Command

end MiniJava
