import TwoPass.Text.Bytes
import TwoPass.Text.Piece
import TwoPass.Text.Blank
import TwoPass.Text.Printable
import TwoPass.Text.Quoted
import TwoPass.Text.LowerCase
import TwoPass.Numeral.Printed
import TwoPass.Numeral.Reader
import TwoPass.Input
import TwoPass.Address
import TwoPass.Opcode.Table
import TwoPass.Source.Position
import TwoPass.Source.Operation
import TwoPass.Source.Statement
import TwoPass.Source.Literal
import TwoPass.Diagnostic
import TwoPass.Object.Program
import TwoPass.Object.Grouping
import TwoPass.Object.Reader
import TwoPass.Object.Image
import TwoPass.Object.Coverage
import TwoPass.Object.Dump
import TwoPass.Output.Sink
import TwoPass.Output.Latch
import TwoPass.Assembly.Layout
import TwoPass.Assembly.Symbol
import TwoPass.Assembly.Listing
import TwoPass.Assembly.Result
import TwoPass.Assembler
import TwoPass.Command.Path
import TwoPass.Command.FileStore
import TwoPass.Command.FileTree
import TwoPass.Command.FlagValue
import TwoPass.Command.Flag
import TwoPass.Command.Invocation
import TwoPass.Command.Run
import TwoPass.Main
import TwoPass.Proofs.Outcome
import TwoPass.Proofs.Text.Words
import TwoPass.Proofs.Text.Lines
import TwoPass.Proofs.Text.Pieces
import TwoPass.Proofs.Numeral.Hexadecimal
import TwoPass.Proofs.Source.Fields
import TwoPass.Proofs.Object.RoundTrip
import TwoPass.Proofs.Object.Runs
import TwoPass.Proofs.Object.Digits
import TwoPass.Proofs.Object.Cells
import TwoPass.Proofs.Assembly.Passes
import TwoPass.Proofs.Assembly.LocationCounter
import TwoPass.Proofs.Assembly.Records
import TwoPass.Proofs.Assembly.Code
import TwoPass.Proofs.Assembly.Reload
import TwoPass.Proofs.Assembly.Placement
import TwoPass.Proofs.Assembly.SymbolTable
import TwoPass.Proofs.Assembly.Resolution
import TwoPass.Proofs.Assembly.Groups
import TwoPass.Proofs.Assembly.Offsets
import TwoPass.Proofs.Assembly.Sessions
import TwoPass.Proofs.Assembly.FieldWidths
import TwoPass.Proofs.Assembly.Strictness
import TwoPass.Proofs.Object.Coverage
import TwoPass.Proofs.Object.RecordLength
import TwoPass.Proofs.Assembly.LayoutWarning
import TwoPass.Proofs.Assembly.Separation
import TwoPass.Proofs.Numeral.Values
import TwoPass.Proofs.Source.Operands
import TwoPass.Proofs.Assembly.Faults
import TwoPass.Proofs.Assembly.Diagnostics
import TwoPass.Proofs.Assembly.Relocation
import TwoPass.Proofs.Object.Grammar
import TwoPass.Proofs.Object.NormalForm
import TwoPass.Proofs.Output.Prefix
import TwoPass.Proofs.Source.Canonical
import TwoPass.Proofs.Assembly.Renumbering
import TwoPass.Proofs.Object.Histories
import TwoPass.Proofs.Assembly.RecordLimits
import TwoPass.Proofs.Object.Images
import TwoPass.Proofs.Command.Paths
import TwoPass.Proofs.Command.Trees
import TwoPass.Proofs.Command.Publishing
import TwoPass.Proofs.Object.Sweep
import TwoPass.Proofs.Opcode.Changes
import TwoPass.Proofs.Object.Dump
import TwoPass.Proofs.Output.Requests
import TwoPass.Proofs.LineEndings
import TwoPass.Proofs.Assembly.WordValues
