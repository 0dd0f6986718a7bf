import PromptMarkup.Number.Binary64

/-!
# Powers of a number

An integer power of a positive double-precision number is the exact power,
rounded once.  A power with a fractional exponent is computed from logarithm and
exponential series in fixed-point arithmetic with far more bits than the result
keeps, and then rounded.
-/

namespace PromptMarkup.Binary64

-- Powers of numbers are those of core, whatever other instances are in scope.
attribute [local instance (5000)] instPowNat

/-- The integer power of a positive quotient, rounded. -/
def integerPower (num den : Nat) (n : Int) : Binary64 :=
  if 0 ≤ n then ofQuotient false (num ^ n.natAbs) (den ^ n.natAbs)
  else ofQuotient false (den ^ n.natAbs) (num ^ n.natAbs)

/-! ## Fixed-point series -/

/-- Binary places of the fixed-point numbers below. -/
def fixedBits : Nat := 256

/-- One, as a fixed-point number. -/
def fixedOne : Int := 2 ^ fixedBits

/-- Terms of the series for the inverse hyperbolic tangent, from a power of the
argument on. -/
def artanhTerms (square : Int) : Nat → Int → Int → Int
  | 0, _, _ => 0
  | terms + 1, power, odd =>
    power / odd + artanhTerms square terms (power * square / fixedOne) (odd + 2)

/-- The natural logarithm of a quotient near one, as a fixed-point number: twice
the inverse hyperbolic tangent of {lit}`(num - den) / (num + den)`. -/
def fixedLog (num den : Nat) : Int :=
  let z : Int := ((num : Int) - den) * fixedOne / (num + den)
  2 * artanhTerms (z * z / fixedOne) 90 z 1

/-- Terms of the exponential series, from a given term on. -/
def expTerms (x : Int) : Nat → Int → Int → Int
  | 0, _, _ => 0
  | terms + 1, term, k => term + expTerms x terms (term * x / (fixedOne * k)) (k + 1)

/-- The power of a positive quotient near one with exponent
{lit}`expNum / expDen`, rounded. -/
def fractionalPower (num den : Nat) (expNum : Int) (expDen : Nat) : Binary64 :=
  let product := fixedLog num den * expNum / expDen
  let logTwo := fixedLog 2 1
  let twos := product / logTwo
  let scaled := (expTerms (product - twos * logTwo) 80 fixedOne 1).toNat
  let (n, d) := scaleDown scaled (2 ^ fixedBits) (-twos)
  ofQuotient false n d

end PromptMarkup.Binary64
