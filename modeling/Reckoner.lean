import Reckoner.Command.Basic
import Reckoner.Command.Cursor
import Reckoner.Command.Parser
import Reckoner.CommandLine.Basic
import Reckoner.CommandLine.Disk
import Reckoner.CommandLine.Settings
import Reckoner.Decimal.Basic
import Reckoner.Decimal.Shortest
import Reckoner.Diagnostic.Basic
import Reckoner.Diagnostic.Code
import Reckoner.Eval.Basic
import Reckoner.Eval.CallStack
import Reckoner.Eval.Error
import Reckoner.Eval.Live
import Reckoner.Eval.Operation
import Reckoner.Eval.Stored
import Reckoner.Expr.Basic
import Reckoner.Expr.Node
import Reckoner.Expr.Outline
import Reckoner.Expr.Parser
import Reckoner.Expr.Printer
import Reckoner.Expr.Record
import Reckoner.Expr.Substitution
import Reckoner.Main
import Reckoner.MathFunction
import Reckoner.Numeral
import Reckoner.Operator
import Reckoner.Paint
import Reckoner.ParseError
import Reckoner.Prelude
import Reckoner.Proofs.Binary64.Bits
import Reckoner.Proofs.Binary64.Exact
import Reckoner.Proofs.Decimal.ReadBack
import Reckoner.Proofs.Diagnostic.Carets
import Reckoner.Proofs.Diagnostic.Messages
import Reckoner.Proofs.Eval.Backtrace
import Reckoner.Proofs.Eval.ByName
import Reckoner.Proofs.Eval.Ends
import Reckoner.Proofs.Eval.Fuel
import Reckoner.Proofs.Eval.Halting
import Reckoner.Proofs.Eval.Host
import Reckoner.Proofs.Eval.Inlining
import Reckoner.Proofs.Eval.Limit
import Reckoner.Proofs.Eval.Live
import Reckoner.Proofs.Eval.Locality
import Reckoner.Proofs.Eval.Naming
import Reckoner.Proofs.Eval.Simulation
import Reckoner.Proofs.Eval.Sparing
import Reckoner.Proofs.Eval.Stored
import Reckoner.Proofs.Eval.Substitution
import Reckoner.Proofs.Eval.Termination
import Reckoner.Proofs.Except
import Reckoner.Proofs.Expr.Inlining
import Reckoner.Proofs.Expr.Names
import Reckoner.Proofs.Expr.Outline
import Reckoner.Proofs.Expr.Rewriting
import Reckoner.Proofs.Expr.RoundTrip
import Reckoner.Proofs.Expr.Sharing
import Reckoner.Proofs.Expr.Trees
import Reckoner.Proofs.Expr.WellFormed
import Reckoner.Proofs.Grammar.Basic
import Reckoner.Proofs.Grammar.Bounds
import Reckoner.Proofs.Grammar.Completeness
import Reckoner.Proofs.Grammar.Cursor
import Reckoner.Proofs.Grammar.Failure
import Reckoner.Proofs.Grammar.Lookahead
import Reckoner.Proofs.Grammar.Names
import Reckoner.Proofs.Grammar.Soundness
import Reckoner.Proofs.Grammar.Viable
import Reckoner.Proofs.Numeral
import Reckoner.Proofs.Scope.Listing
import Reckoner.Proofs.Scope.Lookup
import Reckoner.Proofs.Scope.Reachable
import Reckoner.Proofs.Scope.Store
import Reckoner.Proofs.Scope.Suggestion
import Reckoner.Proofs.Scope.Twins
import Reckoner.Proofs.Scope.Update
import Reckoner.Proofs.Scope.Work
import Reckoner.Proofs.Session.Binding
import Reckoner.Proofs.Session.Listing
import Reckoner.Proofs.Session.Reachable
import Reckoner.Proofs.Session.Rebinding
import Reckoner.Proofs.Session.Script
import Reckoner.Proofs.Session.SelfReference
import Reckoner.Proofs.Session.Transcript
import Reckoner.Proofs.Session.WellFormed
import Reckoner.Proofs.Stateful
import Reckoner.Proofs.Text.Columns
import Reckoner.Proofs.Text.EditDistance
import Reckoner.Proofs.Text.Escapes
import Reckoner.Proofs.Text.Graphic
import Reckoner.Proofs.Text.Lines
import Reckoner.Proofs.Token.Blanks
import Reckoner.Proofs.Token.Cursor
import Reckoner.Proofs.Token.Partition
import Reckoner.Proofs.Token.Rules
import Reckoner.Proofs.Token.Scanning
import Reckoner.Proofs.Token.Shapes
import Reckoner.Proofs.Typing.Acceptance
import Reckoner.Proofs.Typing.Captions
import Reckoner.Proofs.Typing.Counted
import Reckoner.Proofs.Typing.Exactness
import Reckoner.Proofs.Typing.Mirrors
import Reckoner.Proofs.Typing.Reducibility
import Reckoner.Proofs.Typing.Soundness
import Reckoner.Proofs.Typing.Stored
import Reckoner.Proofs.Typing.Substitution
import Reckoner.Proofs.Workbench
import Reckoner.Scope.Basic
import Reckoner.Scope.Store
import Reckoner.Scope.Suggestion
import Reckoner.Scope.Table
import Reckoner.Scope.Walk
import Reckoner.Session.Basic
import Reckoner.Session.Console
import Reckoner.Session.Listing
import Reckoner.Session.Live
import Reckoner.Span
import Reckoner.Stateful
import Reckoner.Text.Blank
import Reckoner.Text.ByteOrder
import Reckoner.Text.EditDistance
import Reckoner.Text.Unprintable
import Reckoner.Token.Basic
import Reckoner.Token.Cursor
import Reckoner.Token.Scanner
import Reckoner.Ty
import Reckoner.Typing.Check
import Reckoner.Typing.Counted
import Reckoner.Typing.Error
import Reckoner.Typing.Stored
import Reckoner.Value
import Reckoner.Workbench
