import LogSweep.Block.Cursor
import LogSweep.Call.Site
import LogSweep.Command.Files
import LogSweep.Command.Init
import LogSweep.Command.Sweep
import LogSweep.CommandLine.Arguments
import LogSweep.CommandLine.Help
import LogSweep.CommandLine.Reader
import LogSweep.CommandLine.Run
import LogSweep.Edit
import LogSweep.Files.Confined
import LogSweep.Files.Tree
import LogSweep.Glob.Expression
import LogSweep.Glob.Pattern
import LogSweep.Glob.Reader
import LogSweep.Glob.Token
import LogSweep.Json.Document
import LogSweep.Json.Token
import LogSweep.Json.Value
import LogSweep.Lexical.Region
import LogSweep.Lexical.Scan
import LogSweep.Main
import LogSweep.Path
import LogSweep.Prompt
import LogSweep.Proofs.Block.Behind
import LogSweep.Proofs.Block.Enclosing
import LogSweep.Proofs.Block.Nesting
import LogSweep.Proofs.Block.Past
import LogSweep.Proofs.Block.Travel
import LogSweep.Proofs.Call.Behind
import LogSweep.Proofs.Call.Candidates
import LogSweep.Proofs.Call.Front
import LogSweep.Proofs.Call.Matching
import LogSweep.Proofs.Call.Position
import LogSweep.Proofs.Call.Run
import LogSweep.Proofs.Call.Statement
import LogSweep.Proofs.Checked.Calls
import LogSweep.Proofs.Checked.Cursor
import LogSweep.Proofs.Checked.Script
import LogSweep.Proofs.Checked.Source
import LogSweep.Proofs.Command.Effect
import LogSweep.Proofs.Command.Frame
import LogSweep.Proofs.Command.Init
import LogSweep.Proofs.Command.Preview
import LogSweep.Proofs.Command.Rewritten
import LogSweep.Proofs.CommandLine.Flags
import LogSweep.Proofs.CommandLine.Gate
import LogSweep.Proofs.CommandLine.Targets
import LogSweep.Proofs.Component.Elements
import LogSweep.Proofs.Component.Structure
import LogSweep.Proofs.Component.Tags
import LogSweep.Proofs.Edit.Compatible
import LogSweep.Proofs.Edit.Moved
import LogSweep.Proofs.Edit.Ordered
import LogSweep.Proofs.Edit.Sequential
import LogSweep.Proofs.Files.Create
import LogSweep.Proofs.Files.Joined
import LogSweep.Proofs.Files.Spelling
import LogSweep.Proofs.Lexical.Compose
import LogSweep.Proofs.Lexical.Cut
import LogSweep.Proofs.Lexical.Decomposition
import LogSweep.Proofs.Lexical.Regions
import LogSweep.Proofs.Path.Order
import LogSweep.Proofs.Selection.Answers
import LogSweep.Proofs.Selection.Prompt
import LogSweep.Proofs.Settings.Discovery
import LogSweep.Proofs.Sorted
import LogSweep.Proofs.Sweep.Again
import LogSweep.Proofs.Sweep.Convergence
import LogSweep.Proofs.Sweep.Coverage
import LogSweep.Proofs.Sweep.LineBreaks
import LogSweep.Proofs.Sweep.Modified
import LogSweep.Proofs.Sweep.Operators
import LogSweep.Proofs.Sweep.Placement
import LogSweep.Proofs.Sweep.Regions
import LogSweep.Proofs.Sweep.Repeat
import LogSweep.Proofs.Sweep.Replaced
import LogSweep.Proofs.Sweep.Seams
import LogSweep.Proofs.Sweep.Sequence
import LogSweep.Proofs.Sweep.Stable
import LogSweep.Proofs.Sweep.Stretches
import LogSweep.Proofs.Sweep.Weave
import LogSweep.Proofs.Text.LineIndex
import LogSweep.Proofs.Text.Names
import LogSweep.Proofs.Walk.Below
import LogSweep.Report.Basic
import LogSweep.Report.Text
import LogSweep.Rules
import LogSweep.Selection
import LogSweep.Settings.Discovery
import LogSweep.Settings.Section
import LogSweep.Sorted
import LogSweep.Sweep.Component
import LogSweep.Sweep.Script
import LogSweep.Sweep.Source
import LogSweep.Text.Bytes
import LogSweep.Text.Character
import LogSweep.Text.Columns
import LogSweep.Text.Emoji
import LogSweep.Text.Ligature
import LogSweep.Text.LineIndex
import LogSweep.Text.Lines
import LogSweep.Text.Printable
import LogSweep.Text.Table
import LogSweep.Text.Width
import LogSweep.Text.Word
import LogSweep.Toml.Document
import LogSweep.Toml.Scalar
import LogSweep.Toml.Table
import LogSweep.Walk.Collect
import LogSweep.Walk.Ignore
import LogSweep.Walk.Rule
import LogSweep.Walk.RuleFile
