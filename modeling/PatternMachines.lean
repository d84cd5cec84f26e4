import PatternMachines.Arena
import PatternMachines.Batch.Patterns
import PatternMachines.Batch.Row
import PatternMachines.Batch.Run
import PatternMachines.Comparison
import PatternMachines.Console.Command
import PatternMachines.Console.Session
import PatternMachines.Decimal.Binary64
import PatternMachines.Decimal.Notation
import PatternMachines.Dfa
import PatternMachines.Dfa.Alias
import PatternMachines.Dfa.Samples
import PatternMachines.Dfa.Subset
import PatternMachines.Dfa.Summary
import PatternMachines.Directory
import PatternMachines.Directory.Steps
import PatternMachines.Exploration
import PatternMachines.Json.Display
import PatternMachines.Json.Number
import PatternMachines.Json.Reader
import PatternMachines.Json.Sent
import PatternMachines.Json.Value
import PatternMachines.Main
import PatternMachines.Nfa
import PatternMachines.Pattern
import PatternMachines.Pattern.Cursor
import PatternMachines.Pattern.OfJson
import PatternMachines.Pattern.Reader
import PatternMachines.Reading
import PatternMachines.Report.Automaton
import PatternMachines.Report.Hints
import PatternMachines.Report.Machine
import PatternMachines.Report.Verdict
import PatternMachines.Service.FileName
import PatternMachines.Service.Request
import PatternMachines.Service.Respond
import PatternMachines.Service.Server
import PatternMachines.Symbol
import PatternMachines.Table
import PatternMachines.Table.Plain
import PatternMachines.Text.Digits
import PatternMachines.Text.Lines
import PatternMachines.Text.Loose
import PatternMachines.Text.Part
import PatternMachines.Text.Percent
import PatternMachines.Text.Quoted
import PatternMachines.Text.Trim
import PatternMachines.Text.Utf8
import PatternMachines.Turing.Document
import PatternMachines.Turing.Jflap
import PatternMachines.Turing.Machine
import PatternMachines.Turing.OfDfa
import PatternMachines.Turing.Run
import PatternMachines.Unicode.Alphanumeric
import PatternMachines.Unicode.Blank
import PatternMachines.Unicode.Cased
import PatternMachines.Unicode.DecimalDigit
import PatternMachines.Unicode.Letter
import PatternMachines.Unicode.Lowercase
import PatternMachines.Unicode.Printable
import PatternMachines.Unicode.Range
import PatternMachines.Workbench
import PatternMachines.Proofs.Fallible
import PatternMachines.Proofs.Text.Digits
import PatternMachines.Proofs.Text.Part
import PatternMachines.Proofs.Text.Lines
import PatternMachines.Proofs.Text.Trim
import PatternMachines.Proofs.Text.Markup
import PatternMachines.Proofs.Text.Utf8
import PatternMachines.Proofs.Exploration
import PatternMachines.Proofs.Exploration.Rounds
import PatternMachines.Proofs.Exploration.Order
import PatternMachines.Proofs.Symbol
import PatternMachines.Proofs.Json.Rendered
import PatternMachines.Proofs.Json.Sent
import PatternMachines.Proofs.Nfa.Path
import PatternMachines.Proofs.Nfa.Walk
import PatternMachines.Proofs.Nfa.Closure
import PatternMachines.Proofs.Nfa.Rename
import PatternMachines.Proofs.Dfa.Run
import PatternMachines.Proofs.Dfa.Subset
import PatternMachines.Proofs.Dfa.Missing
import PatternMachines.Proofs.Dfa.Trim
import PatternMachines.Proofs.Dfa.Canonical
import PatternMachines.Proofs.Dfa.Twice
import PatternMachines.Proofs.Dfa.Alias
import PatternMachines.Proofs.Dfa.Summary
import PatternMachines.Proofs.Dfa.Dead
import PatternMachines.Proofs.Dfa.Rebuilt
import PatternMachines.Proofs.Dfa.Samples
import PatternMachines.Proofs.Dfa.FirstSamples
import PatternMachines.Proofs.Arena.Edges
import PatternMachines.Proofs.Pattern.Language
import PatternMachines.Proofs.Arena.Isolation
import PatternMachines.Proofs.Arena.Rules
import PatternMachines.Proofs.Arena.Trim
import PatternMachines.Proofs.Arena.Composition
import PatternMachines.Proofs.Arena.Session
import PatternMachines.Proofs.Arena.Cover
import PatternMachines.Proofs.Pattern.Grammar
import PatternMachines.Proofs.Pattern.Reader
import PatternMachines.Proofs.Pattern.Symbols
import PatternMachines.Proofs.Pattern.Escaped
import PatternMachines.Proofs.Pattern.Automaton
import PatternMachines.Proofs.Pattern.Writing
import PatternMachines.Proofs.Pattern.Trim
import PatternMachines.Proofs.Pattern.Size
import PatternMachines.Proofs.Pattern.Parts
import PatternMachines.Proofs.Pattern.Calls
import PatternMachines.Proofs.Workbench
import PatternMachines.Proofs.Turing.Rounds
import PatternMachines.Proofs.Turing.Endless
import PatternMachines.Proofs.Turing.Trace
import PatternMachines.Proofs.Turing.Outcome
import PatternMachines.Proofs.Turing.Edits
import PatternMachines.Proofs.Turing.Recovered
import PatternMachines.Proofs.Text.Separated
import PatternMachines.Proofs.Turing.OfDfa
import PatternMachines.Proofs.Dfa.Numbering
import PatternMachines.Proofs.Turing.Simulation
import PatternMachines.Proofs.Turing.Course
import PatternMachines.Proofs.Turing.Jflap.Marks
import PatternMachines.Proofs.Turing.Jflap.Reader
import PatternMachines.Proofs.Turing.Jflap.Faithful
import PatternMachines.Proofs.Comparison
import PatternMachines.Proofs.Batch.Row
import PatternMachines.Proofs.Batch.Written
import PatternMachines.Proofs.Dfa.Listed
import PatternMachines.Proofs.Batch.Columns
import PatternMachines.Proofs.Table.Plain
import PatternMachines.Proofs.Batch.Characters
import PatternMachines.Proofs.Batch.Run
import PatternMachines.Proofs.Batch.Patterns
import PatternMachines.Proofs.Batch.Atomic
import PatternMachines.Proofs.Turing.Jflap.Characters
import PatternMachines.Proofs.Service.Asking
import PatternMachines.Proofs.Service.Conversion
import PatternMachines.Proofs.Service.Document
import PatternMachines.Proofs.Service.Table
import PatternMachines.Proofs.Pattern.Balanced
import PatternMachines.Proofs.Report.Steps
import PatternMachines.Proofs.Report.Automaton
import PatternMachines.Proofs.Service.FileName
import PatternMachines.Proofs.Console.Session
import PatternMachines.Proofs.Service.Commas
import PatternMachines.Proofs.Directory.Files
