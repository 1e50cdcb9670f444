import ExprLang.Text.Bytes
import ExprLang.Text.Utf8
import ExprLang.Text.Blank
import ExprLang.Text.Printable
import ExprLang.Text.LowerCase
import ExprLang.Text.Quoted
import ExprLang.Number.Integer
import ExprLang.Number.Nearest
import ExprLang.Number.Shortest
import ExprLang.Number.Numeral
import ExprLang.Token.Basic
import ExprLang.Token.Piece
import ExprLang.SyntaxError
import ExprLang.Token.Scan
import ExprLang.Expr.Basic
import ExprLang.Expr.Parser
import ExprLang.Expr.Printer
import ExprLang.Value.Basic
import ExprLang.Value.Text
import ExprLang.Value.Items
import ExprLang.Value.Operators
import ExprLang.RuntimeError
import ExprLang.Scope
import ExprLang.Eval
import ExprLang.Log
import ExprLang.Interpreter
import ExprLang.Scope.Store
import ExprLang.Console
import ExprLang.Repl
import ExprLang.NodeSource
import ExprLang.Text.Hidden
import ExprLang.Text.Line
import ExprLang.Repl.History
import ExprLang.Folder
import ExprLang.Text.Base64
import ExprLang.Yaml.Basic
import ExprLang.Yaml.Portion
import ExprLang.Yaml.Cursor
import ExprLang.Yaml.Comment
import ExprLang.Yaml.Scalar
import ExprLang.Yaml.Token
import ExprLang.Yaml.Stream
import ExprLang.Yaml.Tag
import ExprLang.Yaml.Node
import ExprLang.Yaml.Datum
import ExprLang.Yaml.Composer
import ExprLang.Settings.Basic
import ExprLang.Settings.Error
import ExprLang.Settings.Decoding
import ExprLang.Settings
import ExprLang.CommandLine.Flags
import ExprLang.CommandLine
import ExprLang.Main
import ExprLang.Proofs.Parsing.Progress
import ExprLang.Proofs.Parsing.Rules
import ExprLang.Proofs.Parsing.Seam
import ExprLang.Proofs.Parsing.Equations
import ExprLang.Proofs.Parsing.Lines
import ExprLang.Proofs.Parsing.Program
import ExprLang.Proofs.Text.Utf8
import ExprLang.Proofs.Scanning.Pieces
import ExprLang.Proofs.Scanning.Tokens
import ExprLang.Proofs.Chunks
import ExprLang.Proofs.Numbers.Bits
import ExprLang.Proofs.Numbers.Rounding
import ExprLang.Proofs.Numbers.Numerals
import ExprLang.Proofs.Scanning.Cut
import ExprLang.Proofs.Scanning.LongestMatch
import ExprLang.Proofs.Parsing.Scanned
import ExprLang.Proofs.Printing.Normal
import ExprLang.Proofs.Printing.Pieces
import ExprLang.Proofs.Printing.Reading
import ExprLang.Proofs.Printing.RoundTrip
import ExprLang.Proofs.Evaluation.Frames
import ExprLang.Proofs.Evaluation.Alike
import ExprLang.Proofs.Evaluation.Simulation
import ExprLang.Proofs.Printing.Meaning
import ExprLang.Proofs.Evaluation.Discipline
import ExprLang.Proofs.Evaluation.Visible
import ExprLang.Proofs.Parsing.Leaves
import ExprLang.Proofs.Parsing.Grammar
import ExprLang.Proofs.Parsing.Cursor
import ExprLang.Proofs.Parsing.Places
import ExprLang.Proofs.Parsing.Agreement
import ExprLang.Proofs.Parsing.Safety
import ExprLang.Proofs.Parsing.Recovery
import ExprLang.Proofs.Parsing.Respacing
import ExprLang.Proofs.Parsing.Joints
import ExprLang.Proofs.Parsing.Strings
import ExprLang.Proofs.Evaluation.Relabelling
import ExprLang.Proofs.Running.Chunks
import ExprLang.Proofs.Evaluation.Arguments
import ExprLang.Proofs.Evaluation.Proper
import ExprLang.Proofs.Scanning.Lines
import ExprLang.Proofs.Running.Outcomes
import ExprLang.Proofs.Numbers.Exact
import ExprLang.Proofs.Evaluation.Arithmetic
import ExprLang.Proofs.Evaluation.Collections
import ExprLang.Proofs.Evaluation.Identities
import ExprLang.Proofs.Evaluation.Mapping
import ExprLang.Proofs.Formulas.Reading
import ExprLang.Proofs.Formulas.Value
import ExprLang.Proofs.Repl.Chunking
import ExprLang.Proofs.Parsing.Completion
import ExprLang.Proofs.Repl.Continuation
import ExprLang.Proofs.Scanning.Flattening
import ExprLang.Proofs.Repl.Entries
import ExprLang.Proofs.Scanning.Rescanning
import ExprLang.Proofs.Running.Below
import ExprLang.Proofs.Text.Decoding
import ExprLang.Proofs.Running.Characters
import ExprLang.Proofs.Evaluation.Equality
import ExprLang.Proofs.Scope.Histories
import ExprLang.Proofs.NodeSource.Fields
