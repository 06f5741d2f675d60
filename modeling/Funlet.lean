import Funlet.Command.Arguments
import Funlet.Command.FileTree
import Funlet.Command.Job
import Funlet.Command.Run
import Funlet.Data.Basic
import Funlet.Data.Json
import Funlet.Expr.Basic
import Funlet.Expr.Construction
import Funlet.Expr.Outline
import Funlet.Expr.Record
import Funlet.Expr.Report
import Funlet.Expr.Source
import Funlet.Grammar.Fault
import Funlet.Grammar.Program
import Funlet.Grammar.Rules
import Funlet.Grammar.Stepwise
import Funlet.Host
import Funlet.Main
import Funlet.Number.Binary64
import Funlet.Number.Decimal
import Funlet.Number.Digits
import Funlet.Number.Index
import Funlet.Number.Numeral
import Funlet.Number.Power
import Funlet.Proofs.Command.Arguments
import Funlet.Proofs.Command.FileTree
import Funlet.Proofs.Command.Runs
import Funlet.Proofs.Expr.Forms
import Funlet.Proofs.Expr.Nodes
import Funlet.Proofs.Expr.Records
import Funlet.Proofs.Expr.Refusals
import Funlet.Proofs.Expr.Reports
import Funlet.Proofs.Grammar.Acceptance
import Funlet.Proofs.Grammar.Blame
import Funlet.Proofs.Grammar.Checks
import Funlet.Proofs.Grammar.Greedy
import Funlet.Proofs.Grammar.Limits
import Funlet.Proofs.Grammar.Outlook
import Funlet.Proofs.Grammar.Phrase
import Funlet.Proofs.Grammar.Places
import Funlet.Proofs.Grammar.Readers
import Funlet.Proofs.Grammar.Reading
import Funlet.Proofs.Grammar.Tracking
import Funlet.Proofs.Grammar.Trailing
import Funlet.Proofs.Grammar.Widest
import Funlet.Proofs.Number.Digits
import Funlet.Proofs.Number.Literal
import Funlet.Proofs.Number.Numerals
import Funlet.Proofs.Number.Rounding
import Funlet.Proofs.Session.Entries
import Funlet.Proofs.Session.Parentheses
import Funlet.Proofs.Source.RoundTrip
import Funlet.Proofs.Source.Spelling
import Funlet.Proofs.Source.Writable
import Funlet.Proofs.Stepwise.Agreement
import Funlet.Proofs.Stepwise.Characters
import Funlet.Proofs.Stepwise.Records
import Funlet.Proofs.Stepwise.Rules
import Funlet.Proofs.Stepwise.Tokens
import Funlet.Proofs.Token.Layout
import Funlet.Proofs.Token.Munch
import Funlet.Proofs.Token.Spacing
import Funlet.Proofs.Token.Words
import Funlet.Proofs.Token.Written
import Funlet.Session
import Funlet.Text.Blank
import Funlet.Text.CodePoints
import Funlet.Text.Digit
import Funlet.Text.Lowercase
import Funlet.Text.Printable
import Funlet.Text.Quoted
import Funlet.Text.Ranges
import Funlet.Text.Utf8
import Funlet.Token.Basic
import Funlet.Token.Cursor
import Funlet.Token.Place
import Funlet.Token.Stepwise
import Funlet.Token.Word
import Funlet.Proofs.Data.Documents
import Funlet.Proofs.Data.Strings
import Funlet.Proofs.Data.RoundTrip
import Funlet.Proofs.Expr.Documents
import Funlet.Proofs.Token.Joining
import Funlet.Proofs.Stepwise.Driving
import Funlet.Proofs.Token.Stray
import Funlet.Proofs.Source.Bracketed
import Funlet.Proofs.Source.Standing
import Funlet.Proofs.Source.Frames
import Funlet.Proofs.Source.Parentheses
import Funlet.Proofs.Expr.Addresses
import Funlet.Proofs.Expr.Labels
import Funlet.Proofs.Expr.Drawing
import Funlet.Proofs.Source.Atoms
import Funlet.Proofs.Expr.Traversal
import Funlet.Proofs.Stepwise.Frame
import Funlet.Proofs.Source.Levels
import Funlet.Proofs.Session.Locations
