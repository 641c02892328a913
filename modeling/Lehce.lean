import Lehce.Code.Emission
import Lehce.Code.Instruction
import Lehce.Code.Listing
import Lehce.Code.Location
import Lehce.Code.Scope
import Lehce.Code.Unit
import Lehce.Command.Argument
import Lehce.Command.Binding
import Lehce.Command.Table
import Lehce.Command.Usage
import Lehce.CommandLine
import Lehce.Console
import Lehce.Crash
import Lehce.Evaluation
import Lehce.Fault
import Lehce.Files
import Lehce.Flags
import Lehce.Image.Basic
import Lehce.Image.Cbor
import Lehce.Image.Layout
import Lehce.Log.Level
import Lehce.Log.Record
import Lehce.Machine.Operators
import Lehce.Machine.Run
import Lehce.Machine.Stack
import Lehce.Machine.State
import Lehce.Machine.Step
import Lehce.Main
import Lehce.Mode
import Lehce.Natives.Registry
import Lehce.Natives.Standard
import Lehce.Number.Format
import Lehce.Number.Integral
import Lehce.Number.Layout
import Lehce.Number.Numeral
import Lehce.Number.Shortest
import Lehce.Program.Expression
import Lehce.Program.Node
import Lehce.Program.Statement
import Lehce.Program.Stream
import Lehce.Program.Text
import Lehce.Proofs.Code.WellFormed
import Lehce.Proofs.Image.Persistence
import Lehce.Proofs.Machine.Leaks
import Lehce.Session
import Lehce.Settings.Basic
import Lehce.Settings.Document
import Lehce.Settings.Override
import Lehce.Settings.Script
import Lehce.Suite.Case
import Lehce.Suite.Load
import Lehce.Text.Case
import Lehce.Text.Digit
import Lehce.Text.Hex
import Lehce.Text.Letter
import Lehce.Text.Printable
import Lehce.Text.Quoted
import Lehce.Text.Ranges
import Lehce.Text.Space
import Lehce.Text.Truth
import Lehce.Text.Utf8
import Lehce.Token.Basic
import Lehce.Token.Numeral
import Lehce.Token.Scan
import Lehce.Value.Boxed
import Lehce.Value.Datum
import Lehce.Value.Dict
import Lehce.Value.Heap
import Lehce.Value.Inspection
import Lehce.Yaml.Node
import Lehce.Yaml.Read
import Lehce.Yaml.Scalar
import Lehce.Proofs.Meaning.Evaluator
import Lehce.Proofs.Meaning.Following
import Lehce.Proofs.Program.Contract
import Lehce.Proofs.Image.Zeros
import Lehce.Proofs.Program.Precedence
import Lehce.Proofs.Program.Indentation
import Lehce.Proofs.Meaning.Memory
import Lehce.Proofs.Machine.Bounds
import Lehce.Proofs.Natives.Without
import Lehce.Code.Context
import Lehce.Proofs.Code.Narrowing
import Lehce.Proofs.Code.Recompilation
import Lehce.Proofs.Natives.Disabling
import Lehce.Proofs.Code.BodyCode
import Lehce.Proofs.Meaning.Activations
import Lehce.Proofs.Meaning.Correctness
import Lehce.Proofs.Code.Carets
import Lehce.Proofs.Machine.Constants
import Lehce.Proofs.Program.ColonSpacing
import Lehce.Proofs.Value.InsertionOrder
import Lehce.Proofs.Value.Equality
import Lehce.Proofs.Value.Boxing
import Lehce.Proofs.Code.LocationHistory
import Lehce.Proofs.Meaning.Agreement
import Lehce.Proofs.Meaning.Continuation
import Lehce.Proofs.Meaning.Sessions
import Lehce.Proofs.Machine.Operations
import Lehce.Proofs.Program.Totality
import Lehce.Proofs.Token.NumeralValue
import Lehce.Proofs.Machine.Disassembly
