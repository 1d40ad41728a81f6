/-!
# Binary numbers of 64 bits

A finite number is a significand of at most 53 bits times a power of two whose exponent is at least -1074. A decimal
number is read as the nearest of these, a half going to the even significand, all in exact arithmetic on naturals.

* `roundDiv_near` — a rounded quotient is within half a unit of the quotient.
-/

namespace BlockingCalls.Decimal

/-- A quotient of naturals. -/
structure Fraction where
  numerator : Nat
  denominator : Nat
  deriving Repr, BEq, DecidableEq

namespace Fraction

/-- The fraction times a power of a base. -/
def scale (f : Fraction) (base : Nat) (exponent : Int) : Fraction :=
  ⟨f.numerator * base.pow exponent.toNat, f.denominator * base.pow (-exponent).toNat⟩

/-- The fraction `coefficient * 10 ^ exponent`. -/
def ofDecimal (coefficient : Nat) (exponent : Int) : Fraction :=
  scale ⟨coefficient, 1⟩ 10 exponent

def floor (f : Fraction) : Nat :=
  f.numerator / f.denominator

/-- Is the fraction less than a power of a base? -/
def belowPower (f : Fraction) (base : Nat) (exponent : Int) : Bool :=
  let scaled := f.scale base (-exponent)
  decide (scaled.numerator < scaled.denominator)

end Fraction

/-- A quotient rounded to nearest, a half to the even neighbour. -/
def roundDiv (n d : Nat) : Nat :=
  if 2 * (n % d) < d ∨ 2 * (n % d) = d ∧ n / d % 2 = 0 then n / d else n / d + 1

/-- The rounded quotient is off by at most one half. -/
theorem roundDiv_near (n : Nat) {d : Nat} (h : 0 < d) :
    2 * (roundDiv n d * d) ≤ 2 * n + d ∧ 2 * n ≤ 2 * (roundDiv n d * d) + d := by
  have hdiv := Nat.div_add_mod n d
  have hmod := Nat.mod_lt n h
  have hcomm : n / d * d = d * (n / d) := Nat.mul_comm _ _
  unfold roundDiv
  split
  · omega
  · rw [Nat.add_mul]
    omega

inductive Binary64 where
  | finite (isNegative : Bool) (significand : Nat) (exponent : Int)
  | infinite (isNegative : Bool)
  | notANumber
  deriving Repr, BEq, DecidableEq

namespace Binary64

def zero (isNegative : Bool) : Binary64 :=
  .finite isNegative 0 (-1074)

def isZero : Binary64 → Bool
  | .finite _ significand _ => significand == 0
  | _ => false

/-- The exponent of the greatest power of two that is not above a positive fraction. -/
def floorLog2 (f : Fraction) : Int :=
  let estimate : Int := f.numerator.log2 - f.denominator.log2
  if f.belowPower 2 estimate then estimate - 1 else estimate

/-- A significand that rounding made too long is halved; an exponent above 971 does not fit. -/
def normalized (isNegative : Bool) (significand : Nat) (exponent : Int) : Binary64 :=
  let (significand, exponent) :=
    if significand = Nat.pow 2 53 then (Nat.pow 2 52, exponent + 1) else (significand, exponent)
  if exponent > 971 then .infinite isNegative else .finite isNegative significand exponent

/-- The nearest number to a fraction. -/
def nearest (isNegative : Bool) (f : Fraction) : Binary64 :=
  if f.numerator = 0 then zero isNegative
  else
    -- 53 bits before the point, or fewer for numbers near zero
    let exponent := max (floorLog2 f - 52) (-1074)
    let scaled := f.scale 2 (-exponent)
    normalized isNegative (roundDiv scaled.numerator scaled.denominator) exponent

def digitCount (n : Nat) : Nat :=
  (Nat.toDigits 10 n).length

/-- The nearest number to `coefficient * 10 ^ exponent`. What is far above or below all numbers is recognised by its count
of digits alone. -/
def ofDecimal (isNegative : Bool) (coefficient : Nat) (exponent : Int) : Binary64 :=
  let magnitude := digitCount coefficient + exponent
  if coefficient = 0 ∨ magnitude < -330 then zero isNegative
  else if magnitude > 310 then .infinite isNegative
  else nearest isNegative (.ofDecimal coefficient exponent)

end Binary64

end BlockingCalls.Decimal
