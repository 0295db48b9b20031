/-
# Reading errors

Programs and scripts are read without complaint: a line that makes no sense is left
out. Only what an assertion says is taken at its word, and these are the ways in
which its text can fail to be understood.
-/

namespace Kata

/-- Why the text of an assertion could not be read. -/
inductive ReadError
  /-- An `ASSERT` line without a call, `==` and an expected value. -/
  | assertSyntax
  /-- An `EXPECT` line without a call, `TO_BE` and an expected value. -/
  | expectSyntax
  /-- The text given is no call of a named function. -/
  | notACall (text : String)
  /-- The text given is no literal. -/
  | notALiteral (text : String)
  deriving DecidableEq, Repr

/-- What the learner is told. -/
def ReadError.message : ReadError → String
  | .assertSyntax => "Invalid ASSERT syntax"
  | .expectSyntax => "Invalid EXPECT syntax"
  | .notACall text => "Invalid function call: " ++ text
  | .notALiteral text => "Cannot parse value: " ++ text

end Kata
