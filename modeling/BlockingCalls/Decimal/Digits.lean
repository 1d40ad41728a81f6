/-!
# Decimal numbers in text
-/

namespace BlockingCalls.Decimal

/-- The number that some decimal digits stand for. -/
def ofDigits (digits : List Char) : Nat :=
  digits.foldl (fun n c => 10 * n + (c.toNat - 48)) 0

/-- An integer with more digits than this is not read. -/
def digitLimit : Nat :=
  4300

end BlockingCalls.Decimal
