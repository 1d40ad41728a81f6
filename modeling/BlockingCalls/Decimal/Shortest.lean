import BlockingCalls.Decimal.Binary64

/-!
# Numbers in the fewest digits

A number is written with the fewest decimal digits from which it is read back; of several such texts the one nearest to
the number is taken. The text is positional from `0.0001` up to sixteen digits before the point, and has an exponent
with a sign and at least two digits otherwise.
-/

namespace BlockingCalls.Decimal

/-- The number `coefficient * 10 ^ exponent`. -/
structure Scientific where
  coefficient : Nat
  exponent : Int
  deriving Repr, BEq, DecidableEq

namespace Binary64

/-- The value of a finite number without its sign. -/
def magnitude (significand : Nat) (exponent : Int) : Fraction :=
  Fraction.scale ⟨significand, 1⟩ 2 exponent

/-- The exponent of the greatest power of ten that is not above a positive fraction. -/
def floorLog10 (f : Fraction) : Int :=
  let estimate : Int := digitCount f.numerator - digitCount f.denominator
  if f.belowPower 10 estimate then estimate - 1 else estimate

def readsBack (significand : Nat) (exponent : Int) (s : Scientific) : Bool :=
  ofDecimal false s.coefficient s.exponent == .finite false significand exponent

/-- The decimal with a given number of digits that reads back, if there is one: one of the two neighbours of the
number on the grid of such decimals, the nearer one if both do, the even one if both are equally near. -/
def withDigits (significand : Nat) (exponent : Int) (digits : Nat) : Option Scientific :=
  let value := magnitude significand exponent
  let grid := floorLog10 value - digits + 1
  let scaled := value.scale 10 (-grid)
  let lower : Scientific := ⟨scaled.floor, grid⟩
  let upper : Scientific := ⟨scaled.floor + 1, grid⟩
  -- if any decimal of this grid reads back, one of these two does
  match readsBack significand exponent lower, readsBack significand exponent upper with
  | true, true => some (if roundDiv scaled.numerator scaled.denominator = scaled.floor then lower else upper)
  | true, false => some lower
  | false, true => some upper
  | false, false => none

/-- Seventeen digits always read back. -/
def shortest (significand : Nat) (exponent : Int) : Scientific :=
  ((List.range 17).findSome? fun n => withDigits significand exponent (n + 1)).getD
    ⟨significand * Nat.pow 5 (-exponent).toNat * Nat.pow 2 exponent.toNat, min exponent 0⟩

/-! ## Layout -/

/-- An exponent with a sign and at least two digits. -/
def exponentText (exponent : Int) : List Char :=
  let digits := Nat.toDigits 10 exponent.natAbs
  (if exponent < 0 then '-' else '+') :: List.replicate (2 - digits.length) '0' ++ digits

/-- Digits with the point behind the given number of them. -/
def layout (digits : List Char) (point : Int) : List Char :=
  if -4 < point ∧ point ≤ 16 then
    if point ≤ 0 then '0' :: '.' :: List.replicate (-point).toNat '0' ++ digits
    else
      let whole := digits.take point.toNat ++ List.replicate (point.toNat - digits.length) '0'
      let fraction := digits.drop point.toNat
      whole ++ '.' :: (if fraction.isEmpty then ['0'] else fraction)
  else
    let fraction := digits.drop 1
    digits.take 1 ++ (if fraction.isEmpty then [] else '.' :: fraction) ++ 'e' :: exponentText (point - 1)

def magnitudeText (significand : Nat) (exponent : Int) : List Char :=
  if significand = 0 then ['0', '.', '0']
  else
    let s := shortest significand exponent
    let digits := Nat.toDigits 10 s.coefficient
    layout (digits.reverse.dropWhile (· == '0')).reverse (digits.length + s.exponent)

/-- The text of a number. -/
def text : Binary64 → String
  | .finite isNegative significand exponent =>
    (if isNegative then "-" else "") ++ String.ofList (magnitudeText significand exponent)
  | .infinite isNegative => if isNegative then "-inf" else "inf"
  | .notANumber => "nan"

end Binary64

end BlockingCalls.Decimal
