import Kata.Assertion.Json
import Kata.Session.Json
import Kata.Program.Json
import Kata.Main
import Kata.Proofs.Text.Trim
import Kata.Proofs.Text.Quote
import Kata.Proofs.Text.Atom
import Kata.Proofs.Literal.Grammar
import Kata.Proofs.Expr.Chain
import Kata.Proofs.Expr.Split
import Kata.Proofs.Expr.Flat
import Kata.Proofs.Expr.Understood
import Kata.Proofs.Runner.Documented
import Kata.Proofs.Runner.Isolation
import Kata.Proofs.Runner.Modes
import Kata.Proofs.Interpreter.Symbolic
import Kata.Proofs.Statement.Printed
import Kata.Proofs.Program.Header
import Kata.Proofs.Program.Printed
import Kata.Proofs.Session.Journal
import Kata.Proofs.Interpreter.Scalar
import Kata.Proofs.Number.Double
import Kata.Proofs.Runner.WellFormed
import Kata.Proofs.Text.Layout
import Kata.Proofs.Program.Erasure
import Kata.Proofs.Runner.Invariance
import Kata.Proofs.Json.Numeral
import Kata.Proofs.Json.Quoted
import Kata.Proofs.Json.Grammar
import Kata.Proofs.Number.Rounding
import Kata.Proofs.Number.Written
import Kata.Proofs.Number.Magnitude
import Kata.Proofs.Json.Trees
import Kata.Proofs.Json.Finite
import Kata.Proofs.Json.Layouts
import Kata.Proofs.Value.Json
import Kata.Proofs.Program.Json
import Kata.Proofs.Suite.Json
import Kata.Proofs.Json.RoundTrip
import Kata.Proofs.Desk.Status
import Kata.Proofs.Interpreter.Rest
import Kata.Proofs.Roster.History
import Kata.Proofs.Desk.Shelf
import Kata.Proofs.CommandLine.Call
import Kata.Proofs.Runner.Mismatch
import Kata.Proofs.Text.Parted
import Kata.Proofs.Call.Reading
import Kata.Proofs.Script.Printed
import Kata.Proofs.Number.Order
import Kata.Proofs.Number.Reread
import Kata.Proofs.Number.Plain
import Kata.Proofs.Value.Pasted
import Kata.Proofs.CommandLine.Run
import Kata.Proofs.Interpreter.Loading
import Kata.Proofs.Session.Refusal
import Kata.Proofs.Runner.Rerun
import Kata.Proofs.Interpreter.Names
import Kata.Proofs.Expr.Operators
import Kata.Proofs.Interpreter.Arithmetic
import Kata.Proofs.Interpreter.Interference
import Kata.Proofs.CommandLine.Options
import Kata.Proofs.Runner.Styles
import Kata.Proofs.Program.Keyword
import Kata.Proofs.Expr.Normal
import Kata.Proofs.Value.Equality
import Kata.Proofs.Text.Encoded
import Kata.Proofs.Expr.Places
