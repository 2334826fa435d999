import ServiceLint.Text.Marked
import ServiceLint.Source.Outline
import ServiceLint.Session
import ServiceLint.Main
import ServiceLint.Proofs.Session
import ServiceLint.Proofs.Text.Lines
import ServiceLint.Proofs.Text.Coordinates
import ServiceLint.Proofs.Stretch
import ServiceLint.Proofs.Text.Trim
import ServiceLint.Proofs.Text.Replace
import ServiceLint.Proofs.Source.Lexeme
import ServiceLint.Proofs.Source.Scans
import ServiceLint.Proofs.Source.Parse.Members
import ServiceLint.Proofs.Source.Parse.Declarations
import ServiceLint.Proofs.Source.Layout
import ServiceLint.Proofs.Source.Cover
import ServiceLint.Proofs.Source.Parse.Places
import ServiceLint.Proofs.Source.Outline
import ServiceLint.Proofs.Source.Positions
import ServiceLint.Proofs.Wire.RoundTrip
import ServiceLint.Proofs.Action.Execute
import ServiceLint.Proofs.Action.Handler
import ServiceLint.Proofs.Source.Insert
import ServiceLint.Proofs.Action.Insertion
import ServiceLint.Proofs.Action.Kept
import ServiceLint.Proofs.Lint.Bare
import ServiceLint.Proofs.Lint.Order
import ServiceLint.Proofs.Lint.Ranges
import ServiceLint.Proofs.Source.Errors
import ServiceLint.Proofs.Source.Words
import ServiceLint.Proofs.Source.Parse.Unchecked
import ServiceLint.Proofs.Action.Several
import ServiceLint.Proofs.Action.Settled
import ServiceLint.Proofs.Action.Fixes
import ServiceLint.Proofs.Lint.Readings
import ServiceLint.Proofs.Action.LineEndings
import ServiceLint.Proofs.Format.Json
import ServiceLint.Proofs.Lint.Contract
import ServiceLint.Proofs.Wire.Records
import ServiceLint.Proofs.Command.Fix
import ServiceLint.Proofs.Command.Check
import ServiceLint.Proofs.Source.LineBreak
import ServiceLint.Proofs.Source.Literals
import ServiceLint.Proofs.Source.Parse.Headers
import ServiceLint.Proofs.Source.Parse.Params
import ServiceLint.Proofs.Lint.Bound
import ServiceLint.Proofs.Lint.Keys
import ServiceLint.Proofs.Source.Alias
import ServiceLint.Proofs.Lint.Quoting
import ServiceLint.Proofs.Lint.Severities
import ServiceLint.Proofs.Lint.MemberOrder
import ServiceLint.Proofs.Lint.ParamType
import ServiceLint.Proofs.Lint.Arity
import ServiceLint.Proofs.Action.Cursor
import ServiceLint.Proofs.Action.Rendering
import ServiceLint.Proofs.Source.Parse.Names
import ServiceLint.Proofs.Source.Groups
import ServiceLint.Proofs.Text.Marks
import ServiceLint.Proofs.Config.Nearest
import ServiceLint.Proofs.Lint.Qualifier
import ServiceLint.Proofs.Command.Annotations
import ServiceLint.Proofs.Source.Parse.Progress
import ServiceLint.Proofs.Source.Parse.Bounds
