import MiniJava.Main
import MiniJava.Greeting.Sink
import MiniJava.Json.TreeReader
import MiniJava.Scope.Session
import MiniJava.Proofs.Token.Spelling
import MiniJava.Proofs.Position
import MiniJava.Proofs.Token.Tiling
import MiniJava.Proofs.Grammar.Outcome
import MiniJava.Proofs.Token.Lexical
import MiniJava.Proofs.Grammar.Derivation
import MiniJava.Proofs.Grammar.ExpressionExact
import MiniJava.Proofs.Python.Grammar
import MiniJava.Proofs.Python.Unambiguous
import MiniJava.Proofs.Target.Reading
import MiniJava.Proofs.Lowering.Grouping
import MiniJava.Proofs.Lowering.Breaks
import MiniJava.Proofs.Lowering.Shape
import MiniJava.Proofs.Grammar.ProgramOutcome
import MiniJava.Proofs.Token.Regular
import MiniJava.Proofs.Grammar.Phrase
import MiniJava.Proofs.Grammar.DeclarationSound
import MiniJava.Proofs.Grammar.ProgramSound
import MiniJava.Proofs.Grammar.Labels
import MiniJava.Proofs.Grammar.LeavesKept
import MiniJava.Proofs.Grammar.DeclarationComplete
import MiniJava.Proofs.Grammar.ProgramComplete
import MiniJava.Proofs.Grammar.ReprintStable
import MiniJava.Proofs.Lowering.Continues
import MiniJava.Proofs.Scope.Extends
import MiniJava.Proofs.Scope.Meaning
import MiniJava.Proofs.Scope.Names
import MiniJava.Proofs.Lowering.Inversion
import MiniJava.Proofs.Lowering.Meanings
import MiniJava.Proofs.Lowering.References
import MiniJava.Proofs.Diagnostics.Meanings
import MiniJava.Proofs.Diagnostics.Scopes
import MiniJava.Proofs.Scope.Agreement
import MiniJava.Proofs.Token.StandsAlone
import MiniJava.Proofs.Token.Relayout
import MiniJava.Proofs.Syntax.Moved
import MiniJava.Proofs.Grammar.Moved
import MiniJava.Proofs.Scope.Moved
import MiniJava.Proofs.Lowering.Moved
import MiniJava.Proofs.Diagnostics.Moved
import MiniJava.Proofs.Layout
import MiniJava.Proofs.Python.Layout
import MiniJava.Proofs.Text.Integer
import MiniJava.Proofs.Token.Plain
import MiniJava.Proofs.Target.Neat
import MiniJava.Proofs.Target.Blocks
import MiniJava.Proofs.Lowering.Neat
import MiniJava.Proofs.Lowering.Blocks
import MiniJava.Proofs.Evaluation.Value
import MiniJava.Proofs.Python.Value
import MiniJava.Proofs.Lowering.Arithmetic
import MiniJava.Proofs.Evaluation.Run
import MiniJava.Proofs.Evaluation.Statement
import MiniJava.Proofs.Diagnostics.Checks
import MiniJava.Proofs.Diagnostics.Clean
import MiniJava.Proofs.Diagnostics.Typed
import MiniJava.Proofs.Diagnostics.Stores
import MiniJava.Proofs.Scope.Cells
import MiniJava.Proofs.Diagnostics.Finals
import MiniJava.Proofs.Lowering.Words
import MiniJava.Proofs.Lowering.Hygiene
import MiniJava.Proofs.Target.Kinds
import MiniJava.Proofs.Lowering.Operations
import MiniJava.Proofs.Lowering.Judged
import MiniJava.Proofs.Lowering.Sorted
import MiniJava.Proofs.Diagnostics.Core
import MiniJava.Proofs.Lowering.Counting
import MiniJava.Proofs.Lowering.Preservation
import MiniJava.Proofs.Scope.Maps
import MiniJava.Proofs.Diagnostics.Scoping
import MiniJava.Proofs.Syntax.Anchors
import MiniJava.Proofs.Grammar.Anchored
import MiniJava.Proofs.Grammar.Lookahead
import MiniJava.Proofs.Grammar.Locality
import MiniJava.Proofs.Grammar.Concatenation
import MiniJava.Proofs.Located
import MiniJava.Proofs.Unknown
import MiniJava.Proofs.Syntax.FieldsFirst
import MiniJava.Proofs.Diagnostics.Places
import MiniJava.Proofs.Diagnostics.Initialization
import MiniJava.Proofs.Evaluation.Execution
import MiniJava.Proofs.Lowering.CorePrograms
import MiniJava.Proofs.Lowering.Obstacles
import MiniJava.Proofs.Json.Alike
import MiniJava.Proofs.Json.Decoding
import MiniJava.Proofs.Json.Keys
import MiniJava.Proofs.Json.Token
import MiniJava.Proofs.Json.Text
import MiniJava.Proofs.Json.RoundTrip
import MiniJava.Proofs.Lowering.Bounds
import MiniJava.Proofs.Lowering.Ranges
import MiniJava.Proofs.Lowering.Targets
import MiniJava.Proofs.Lowering.Counters
import MiniJava.Proofs.Lowering.Restored
import MiniJava.Proofs.Lowering.Dispatch
import MiniJava.Proofs.Evaluation.Switch
import MiniJava.Proofs.Lowering.Selection
import MiniJava.Proofs.Lowering.FallThrough
import MiniJava.Proofs.Diagnostics.Loops
import MiniJava.Proofs.Lowering.RangeTypes
import MiniJava.Proofs.Scope.Nest
import MiniJava.Proofs.Diagnostics.Occurrences
import MiniJava.Proofs.Scope.Fields
import MiniJava.Proofs.Token.Standing
import MiniJava.Proofs.Token.Kinds
import MiniJava.Proofs.Token.MaximalMunch
import MiniJava.Proofs.Token.Lines
import MiniJava.Proofs.Lowering.StaticTypes
import MiniJava.Proofs.Diagnostics.Returns
import MiniJava.Proofs.Diagnostics.Steps
import MiniJava.Proofs.Grammar.Rounds
import MiniJava.Proofs.Grammar.Progress
import MiniJava.Proofs.Decimal.Rounding
import MiniJava.Proofs.Decimal.Places
import MiniJava.Proofs.Decimal.Exact
import MiniJava.Proofs.Greeting.Salary
import MiniJava.Proofs.Greeting.Writing
import MiniJava.Proofs.Token.Listing
import MiniJava.Proofs.Diagnostics.Stateful
import MiniJava.Proofs.Diagnostics.Effects
import MiniJava.Proofs.Lowering.Context
