import Playbooks.Text.Blank
import Playbooks.Text.Slice
import Playbooks.Text.Pieces
import Playbooks.Text.Quoted
import Playbooks.Text.Case
import Playbooks.Number.Layout
import Playbooks.Number.Reader
import Playbooks.Diagnostic.Basic
import Playbooks.Syntax.Parse
import Playbooks.Value.Text
import Playbooks.Value.Reader
import Playbooks.Expr.Text
import Playbooks.Expr.Value
import Playbooks.Plan.Lower
import Playbooks.Plan.Check
import Playbooks.Eval.Expr
import Playbooks.Eval.Convert
import Playbooks.Run.Modules
import Playbooks.Program.OfPlan
import Playbooks.Compile.Settings
import Playbooks.Command.Options
import Playbooks.Command.Line
import Playbooks.Files
import Playbooks.Run.Arguments
import Playbooks.Toml.Reader
import Playbooks.Command.SettingsFile
import Playbooks.Command.Run
import Playbooks.Build.Script.Run
import Playbooks.Main
import Playbooks.Proofs.Program.Preservation
import Playbooks.Proofs.Plan.Lowering
import Playbooks.Proofs.Syntax.Phrases
import Playbooks.Proofs.Syntax.Reading
import Playbooks.Proofs.Expr.Spelling
import Playbooks.Proofs.Expr.Agreement
import Playbooks.Proofs.Expr.RoundTrip
import Playbooks.Proofs.Plan.Drafts
import Playbooks.Proofs.Plan.Completeness
import Playbooks.Proofs.Plan.Validity
import Playbooks.Proofs.Plan.Walk
import Playbooks.Proofs.Plan.NormalForm
import Playbooks.Proofs.Syntax.Failures
import Playbooks.Proofs.Plan.Places
import Playbooks.Proofs.Program.Sentinels
import Playbooks.Proofs.Compile.Warnings
import Playbooks.Proofs.Compile.Labels
import Playbooks.Proofs.Run.Execution
import Playbooks.Proofs.Run.Replay
import Playbooks.Proofs.Run.Fatal
import Playbooks.Proofs.Eval.Failures
import Playbooks.Proofs.Run.Inputs
import Playbooks.Proofs.Plan.Repetition
import Playbooks.Proofs.Number.Decimals
import Playbooks.Proofs.Program.Tokens
import Playbooks.Proofs.Program.Comments
import Playbooks.Proofs.Program.Layout
import Playbooks.Proofs.Program.Literals
import Playbooks.Proofs.Command.Effects
import Playbooks.Proofs.Syntax.Agreement
import Playbooks.Proofs.Syntax.Choice
import Playbooks.Proofs.Compile.Records
import Playbooks.Proofs.Number.Denotation
import Playbooks.Proofs.Number.Order
import Playbooks.Proofs.Number.Nearest
import Playbooks.Proofs.Syntax.Numbers
import Playbooks.Proofs.Program.Numbers
import Playbooks.Proofs.Expr.Numerals
import Playbooks.Proofs.Plan.Numerals
import Playbooks.Proofs.Compile.Numbers
import Playbooks.Proofs.Syntax.Diagnosis
import Playbooks.Proofs.Syntax.Nesting
import Playbooks.Proofs.Expr.Arithmetic
import Playbooks.Proofs.Eval.Comparison
import Playbooks.Proofs.Eval.Integers
import Playbooks.Proofs.Eval.Order
import Playbooks.Proofs.Plan.Aggregation
import Playbooks.Proofs.Plan.Idempotence
import Playbooks.Proofs.Plan.Spellings
import Playbooks.Proofs.Run.Halting
import Playbooks.Proofs.Eval.Paths
import Playbooks.Proofs.Eval.Strings
import Playbooks.Proofs.Expr.Serialization
import Playbooks.Proofs.Eval.Templates
import Playbooks.Proofs.Plan.Traversal
import Playbooks.Proofs.Syntax.Materialization
import Playbooks.Proofs.Syntax.Expressions
import Playbooks.Proofs.Syntax.Productions
import Playbooks.Proofs.Syntax.Progress
import Playbooks.Proofs.Syntax.Reports
import Playbooks.Proofs.Diagnostic.Positions
