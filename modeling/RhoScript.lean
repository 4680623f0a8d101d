import RhoScript.Command.Files
import RhoScript.Command.Invocation
import RhoScript.Command.Options
import RhoScript.Command.Run
import RhoScript.Command.Usage
import RhoScript.Compile
import RhoScript.CompileError
import RhoScript.Diagnostic
import RhoScript.Document.IntegerText
import RhoScript.Document.Load
import RhoScript.Document.Scalar
import RhoScript.Ground
import RhoScript.Issue
import RhoScript.Json.Basic
import RhoScript.Json.Reader
import RhoScript.Lowering.Eventual
import RhoScript.Lowering.Expression
import RhoScript.Lowering.Failure
import RhoScript.Lowering.Import
import RhoScript.Lowering.Ledger
import RhoScript.Lowering.Pattern
import RhoScript.Lowering.Program
import RhoScript.Lowering.Session
import RhoScript.Lowering.Statement
import RhoScript.Main
import RhoScript.Node
import RhoScript.Number.Decimal
import RhoScript.Number.Double
import RhoScript.Number.Numeral
import RhoScript.Printer
import RhoScript.Proofs.BindingHeader
import RhoScript.Proofs.Command.Agreement
import RhoScript.Proofs.Command.Arguments
import RhoScript.Proofs.Compile
import RhoScript.Proofs.Document.Description
import RhoScript.Proofs.Document.Loading
import RhoScript.Proofs.Document.UnreadFields
import RhoScript.Proofs.Documents
import RhoScript.Proofs.Freshness
import RhoScript.Proofs.FrontEnds
import RhoScript.Proofs.Lowering.Acceptance
import RhoScript.Proofs.Lowering.Actions
import RhoScript.Proofs.Lowering.Channels
import RhoScript.Proofs.Lowering.Composition
import RhoScript.Proofs.Lowering.Dispatch
import RhoScript.Proofs.Lowering.Evaluation
import RhoScript.Proofs.Lowering.Placeholders
import RhoScript.Proofs.Lowering.Reading
import RhoScript.Proofs.Lowering.Recovery
import RhoScript.Proofs.Lowering.Relocation
import RhoScript.Proofs.Lowering.Rules
import RhoScript.Proofs.Lowering.Run
import RhoScript.Proofs.Lowering.Safety
import RhoScript.Proofs.Lowering.Scope
import RhoScript.Proofs.Lowering.Sends
import RhoScript.Proofs.Lowering.Sketches
import RhoScript.Proofs.Lowering.Subset
import RhoScript.Proofs.Lowering.Success
import RhoScript.Proofs.Lowering.Twins
import RhoScript.Proofs.Lowering.Values
import RhoScript.Proofs.Lowering.Wiring
import RhoScript.Proofs.Node.Congruence
import RhoScript.Proofs.Node.Everywhere
import RhoScript.Proofs.Node.Relocated
import RhoScript.Proofs.Number.Rounding
import RhoScript.Proofs.Number.Scripts
import RhoScript.Proofs.Number.Shortest
import RhoScript.Proofs.Number.Texts
import RhoScript.Proofs.QuotedLines
import RhoScript.Proofs.Source.Adjoined
import RhoScript.Proofs.Source.Completion
import RhoScript.Proofs.Source.Derivations
import RhoScript.Proofs.Source.Escapes
import RhoScript.Proofs.Source.Faithful
import RhoScript.Proofs.Source.Interruption
import RhoScript.Proofs.Source.Keywords
import RhoScript.Proofs.Source.Layout
import RhoScript.Proofs.Source.Leaves
import RhoScript.Proofs.Source.Literals
import RhoScript.Proofs.Source.Locations
import RhoScript.Proofs.Source.LookAhead
import RhoScript.Proofs.Source.Parametricity
import RhoScript.Proofs.Source.Placement
import RhoScript.Proofs.Source.Positions
import RhoScript.Proofs.Source.RoundTrip
import RhoScript.Proofs.Source.Scanning
import RhoScript.Proofs.Source.Shape
import RhoScript.Proofs.Source.Spacing
import RhoScript.Proofs.Source.Steps
import RhoScript.Proofs.Source.Strings
import RhoScript.Proofs.Source.Unparse
import RhoScript.Proofs.Source.ViablePrefix
import RhoScript.Proofs.Source.Words
import RhoScript.Proofs.StringLiterals
import RhoScript.Proofs.Term.EqualTerms
import RhoScript.Proofs.Term.Erasure
import RhoScript.Proofs.Term.Forms
import RhoScript.Proofs.Term.FreeNames
import RhoScript.Proofs.Term.Grouping
import RhoScript.Proofs.Term.Indentation
import RhoScript.Proofs.Term.IntegerTerms
import RhoScript.Proofs.Term.Lexemes
import RhoScript.Proofs.Term.Phrases
import RhoScript.Proofs.Term.Readability
import RhoScript.Proofs.Term.Skeleton
import RhoScript.Proofs.Term.Subprocesses
import RhoScript.Proofs.Term.TextOrder
import RhoScript.Proofs.Unambiguous
import RhoScript.Source.Grammar
import RhoScript.Source.Literal
import RhoScript.Source.Meaning
import RhoScript.Source.Parser
import RhoScript.Source.Program
import RhoScript.Source.Terminal
import RhoScript.Source.Token
import RhoScript.Source.Tree
import RhoScript.Term.Basic
import RhoScript.Term.Equality
import RhoScript.Term.Layout
import RhoScript.Term.Sketch
import RhoScript.Text.Alphanumeric
import RhoScript.Text.DecimalDigit
import RhoScript.Text.Hex
import RhoScript.Text.Line
import RhoScript.Text.Printable
import RhoScript.Text.Quoted
import RhoScript.Text.Wide
