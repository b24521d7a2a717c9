import Excerpt.Text.Basic
import Excerpt.Text.Literal
import Excerpt.Utf8
import Excerpt.Line
import Excerpt.Selection.Basic
import Excerpt.Selection.Parser
import Excerpt.Delimiter
import Excerpt.Record.Basic
import Excerpt.Record.Writer
import Excerpt.Record.Reader
import Excerpt.Extraction
import Excerpt.Stream.Basic
import Excerpt.Stream.Transfer
import Excerpt.Configuration
import Excerpt.Files.Tree
import Excerpt.Run
import Excerpt.CommandLine.Switch
import Excerpt.CommandLine.Token
import Excerpt.CommandLine.Parser
import Excerpt.CommandLine.Usage
import Excerpt.Command
import Excerpt.Main
import Excerpt.Proofs.Selection.Grammar
import Excerpt.Proofs.Selection.Decimal
import Excerpt.Proofs.Selection.Refusal
import Excerpt.Proofs.Selection.RoundTrip
import Excerpt.Proofs.Utf8.Decoded
import Excerpt.Proofs.Utf8.Seam
import Excerpt.Proofs.Selection.Select
import Excerpt.Proofs.Selection.Listing
import Excerpt.Proofs.Selection.Cut
import Excerpt.Proofs.Line.Framing
import Excerpt.Proofs.Record.Grammar
import Excerpt.Proofs.Record.Form
import Excerpt.Proofs.Record.RoundTrip
import Excerpt.Proofs.Record.Minimal
import Excerpt.Proofs.Record.Extension
import Excerpt.Proofs.Record.Cursor
import Excerpt.Proofs.Record.Progress
import Excerpt.Proofs.Record.Automaton
import Excerpt.Proofs.Record.Scanner
import Excerpt.Proofs.Line.Decoded
import Excerpt.Proofs.Record.Reread
import Excerpt.Proofs.Record.Grouping
import Excerpt.Proofs.Record.Sharing
import Excerpt.Proofs.Record.Reading
import Excerpt.Proofs.Files.Tree
import Excerpt.Proofs.Stream.Faultless
import Excerpt.Proofs.Stream.Lines
import Excerpt.Proofs.Stream.Records
import Excerpt.Proofs.Stream.Append
import Excerpt.Proofs.Stream.LineNumber
import Excerpt.Proofs.Stream.WriteFault
import Excerpt.Proofs.Stream.ReadFault
import Excerpt.Proofs.Run.Parts
import Excerpt.Proofs.Run.Turns
import Excerpt.Proofs.Run.SharedInput
import Excerpt.Proofs.Run.WriteFault
import Excerpt.Proofs.Run.ReadFault
import Excerpt.Proofs.CommandLine.Tokens
import Excerpt.Proofs.CommandLine.Values
import Excerpt.Proofs.Run.Crash
import Excerpt.Proofs.Run.Status
import Excerpt.Proofs.Command.Exit
import Excerpt.Proofs.Command.Configured
import Excerpt.Proofs.CommandLine.Operands
import Excerpt.Proofs.CommandLine.Spelling
