/-
# Values

What variables hold, arguments are and calls give back. Equality looks at structure
and never converts: a number equals no text, a list equals a list of equal items in
the same order. On numbers it is the comparison of doubles, so zero equals negative
zero and not-a-number equals nothing; that is why `Value` has a `BEq` and no
decidable equality.
-/

namespace Kata

/-- A value of the exercise language. -/
inductive Value
  | null
  | bool (value : Bool)
  | number (value : Float)
  | text (value : String)
  | list (items : List Value)
  deriving Inhabited

namespace Value

mutual

/-- Whether two values are equal. -/
def same : Value → Value → Bool
  | .null, .null => true
  | .bool a, .bool b => a == b
  | .number a, .number b => a == b
  | .text a, .text b => a == b
  | .list as, .list bs => sameItems as bs
  | _, _ => false

/-- Whether two lists have equal items at equal places. -/
def sameItems : List Value → List Value → Bool
  | [], [] => true
  | a :: as, b :: bs => same a b && sameItems as bs
  | _, _ => false

end

instance : BEq Value := ⟨same⟩

/-- The number in a value, if it is one. -/
def number? : Value → Option Float
  | .number x => some x
  | _ => none

end Value

end Kata
