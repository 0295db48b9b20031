/-
# Cases and suites as JSON

Results that a case does not have are left out, all but `passed`, which is null then.
On the way in a missing result is none. A null counts as none too, except in the two
values, where it is the value null.
-/

import Kata.Suite
import Kata.Value.Json

namespace Kata

/-- The word for a kind of failure. -/
def Failure.word : Failure → String
  | .mismatch => "mismatch"
  | .functionNotFound => "function_not_found"
  | .invalidAssertSyntax => "invalid_assert_syntax"
  | .invalidExpectSyntax => "invalid_expect_syntax"
  | .invalidFunctionCall => "invalid_function_call"
  | .unparsableLiteral => "unparsable_literal"
  | .noAssertions => "no_assertions"

/-- The kinds of failure by their words. -/
def Failure.words : List (String × Failure) :=
  [Failure.mismatch, .functionNotFound, .invalidAssertSyntax, .invalidExpectSyntax,
    .invalidFunctionCall, .unparsableLiteral, .noAssertions].map fun f => (f.word, f)

/-- Read a kind of failure. -/
def Failure.ofJson? (room : Nat) (json : Json) : Option Failure :=
  json.word? Failure.words false room

/-- Read a status. -/
def Status.ofJson? (room : Nat) (json : Json) : Option Status :=
  json.word? ([Status.idle, .red, .green, .refactor].map fun s => (s.word, s)) false room

/-- The JSON of a status. -/
def Status.toJson (s : Status) : Json := .text s.word

namespace Case

/-- The JSON of a case. -/
def toJson (c : Case) : Json :=
  .ofMembers [("name", some (.text c.name)), ("code", some (.text c.code)),
    ("passed", some (c.passed.elim .null .bool)), ("error", c.error.map .text),
    ("failure", c.failure.map fun f => .text f.word), ("actual", c.actual.map Value.toJson),
    ("expected", c.expected.map Value.toJson)]

/-- Read a case. A list has to go as far as `passed`. -/
def ofJson? : Nat → Json → Option Case
  | room + 1, json => do
    let [name, code, passed, error, failure, actual, expected] ←
      json.fields? ["name", "code", "passed", "error", "failure", "actual", "expected"] | none
    if passed.isNone && !json.isObject then none
    else
      return ⟨← Json.required? Json.text? name, ← Json.required? Json.text? code,
        ← Json.optional? Json.bool? passed, ← Json.optional? Json.text? error,
        ← Json.optional? (Failure.ofJson? room) failure,
        ← Json.present? (Value.ofJson? room) actual,
        ← Json.present? (Value.ofJson? room) expected⟩
  | 0, _ => none

end Case

namespace Suite

/-- The JSON of a suite. -/
def toJson (s : Suite) : Json :=
  .object [("name", .text s.name), ("tests", .list (s.cases.map Case.toJson)),
    ("passed", .ofCount s.passed), ("failed", .ofCount s.failed), ("total", .ofCount s.total)]

/-- Read a suite. The counts are taken as they come. -/
def ofJson? : Nat → Json → Option Suite
  | room + 1, json => do
    let [name, cases, passed, failed, total] ←
      json.fields? ["name", "tests", "passed", "failed", "total"] | none
    return ⟨← Json.required? Json.text? name,
      ← Json.required? (Json.listOf? Case.ofJson? room) cases,
      ← Json.required? Json.count? passed, ← Json.required? Json.count? failed,
      ← Json.required? Json.count? total⟩
  | 0, _ => none

end Suite

end Kata
