import Scriptlet.Analysis.Annotate
import Scriptlet.Analysis.Rules
import Scriptlet.Catalog
import Scriptlet.CommandLine.Command
import Scriptlet.CommandLine.Disk
import Scriptlet.CommandLine.Options
import Scriptlet.Decimal.Arithmetic
import Scriptlet.Decimal.Basic
import Scriptlet.Decimal.Printer
import Scriptlet.Decimal.Reader
import Scriptlet.Double
import Scriptlet.Failure
import Scriptlet.Json.Basic
import Scriptlet.Json.Compare
import Scriptlet.Json.Printer
import Scriptlet.Json.Reader
import Scriptlet.Machine.Basic
import Scriptlet.Machine.Run
import Scriptlet.Main
import Scriptlet.Name
import Scriptlet.Node.Basic
import Scriptlet.Node.Loader
import Scriptlet.Node.Program
import Scriptlet.Power
import Scriptlet.Proofs.Decimal.Rounding
import Scriptlet.Proofs.Decimal.Written
import Scriptlet.Proofs.Machine.Evaluation
import Scriptlet.Proofs.Machine.Invariant
import Scriptlet.Proofs.Machine.Origins
import Scriptlet.Proofs.Machine.Outcomes
import Scriptlet.Proofs.Machine.Programs
import Scriptlet.Proofs.Machine.Settings
import Scriptlet.Proofs.Node.Exchange
import Scriptlet.Proofs.Node.RoundTrip
import Scriptlet.Proofs.Scope.Forest
import Scriptlet.Proofs.Syntax.Boundaries
import Scriptlet.Proofs.Syntax.Completeness
import Scriptlet.Proofs.Syntax.Compositions
import Scriptlet.Proofs.Syntax.FirstErrors
import Scriptlet.Proofs.Syntax.Grammar
import Scriptlet.Proofs.Syntax.Literals
import Scriptlet.Proofs.Syntax.Recognition
import Scriptlet.Proofs.Syntax.Soundness
import Scriptlet.Proofs.Syntax.Unambiguity
import Scriptlet.Proofs.Syntax.Written
import Scriptlet.Proofs.Token.Lexemes
import Scriptlet.Proofs.Token.Segmentation
import Scriptlet.Proofs.Typing.Declarations
import Scriptlet.Proofs.Typing.Declared
import Scriptlet.Proofs.Typing.Expressions
import Scriptlet.Proofs.Typing.Guards
import Scriptlet.Proofs.Typing.Operators
import Scriptlet.Proofs.Typing.Rules
import Scriptlet.Proofs.Typing.Scopes
import Scriptlet.Proofs.Typing.Statements
import Scriptlet.Proofs.Value.Containment
import Scriptlet.Proofs.Value.Failures
import Scriptlet.Proofs.Value.HeapTyping
import Scriptlet.Proofs.Value.Inhabits
import Scriptlet.Proofs.Value.OperatorTypes
import Scriptlet.Proofs.Value.Operators
import Scriptlet.Scope
import Scriptlet.Session
import Scriptlet.Source
import Scriptlet.Syntax.Basic
import Scriptlet.Syntax.Outline
import Scriptlet.Syntax.Parser
import Scriptlet.Table
import Scriptlet.Text.Blank
import Scriptlet.Text.Digit
import Scriptlet.Text.Integer
import Scriptlet.Text.Printable
import Scriptlet.Text.Quoted
import Scriptlet.Token.Basic
import Scriptlet.Token.Lexer
import Scriptlet.Ty
import Scriptlet.Value.Basic
import Scriptlet.Value.Operators
import Scriptlet.Proofs.Trace.Analyses
import Scriptlet.Proofs.Trace.Runs
import Scriptlet.Proofs.Scope.Changes
import Scriptlet.Proofs.Machine.Frames
import Scriptlet.Proofs.Typing.Work
import Scriptlet.Proofs.Machine.Termination
import Scriptlet.Proofs.Json.Printed
import Scriptlet.Proofs.Syntax.Refusals
import Scriptlet.Proofs.Syntax.Trees
import Scriptlet.Proofs.CommandLine.Emission
import Scriptlet.Proofs.Typing.Verdicts
import Scriptlet.Proofs.Typing.Slots
import Scriptlet.Proofs.Token.Spacing
import Scriptlet.Proofs.Syntax.Layout
import Scriptlet.Proofs.CommandLine.Reports
import Scriptlet.Proofs.Machine.Dispatch
import Scriptlet.Proofs.Token.Viable
import Scriptlet.Proofs.Machine.Congruence
import Scriptlet.Proofs.Machine.DeadCode
import Scriptlet.Proofs.Machine.Reordering
import Scriptlet.Proofs.Typing.Orders
import Scriptlet.Proofs.Typing.Renumbering
import Scriptlet.Proofs.Scope.Views
import Scriptlet.Proofs.Decimal.Magnitudes
import Scriptlet.Proofs.Decimal.Nearest
import Scriptlet.Proofs.Decimal.Operations
import Scriptlet.Proofs.Value.Arithmetic
import Scriptlet.Proofs.Typing.Ranges
import Scriptlet.Proofs.Machine.Anchored
import Scriptlet.Proofs.Machine.Indexing
import Scriptlet.Proofs.Value.Numbers
import Scriptlet.Proofs.Value.Contents
import Scriptlet.Proofs.Machine.Selection
import Scriptlet.Proofs.Syntax.PlainNumbers
import Scriptlet.Proofs.Syntax.Quotations
import Scriptlet.Proofs.Scope.Histories
import Scriptlet.Proofs.Scope.Images
import Scriptlet.Proofs.Typing.Catalog
import Scriptlet.Proofs.Typing.Effects
import Scriptlet.Proofs.Typing.Remains
