import PromptMarkup.Number.Binary64
import PromptMarkup.Text.Basic

/-!
# Shortest decimals

The shortest decimal of a double-precision number has the fewest digits among the
decimals that read back as the number, and of those it is the nearest.  It is
written positionally from 0.0001 up to below {lit}`10 ^ 16`, always with a point,
and otherwise with an exponent that has a sign and at least two digits.
-/

namespace PromptMarkup.Binary64

-- Powers of numbers are those of core, whatever other instances are in scope.
attribute [local instance (5000)] instPowNat

/-- A natural number of steps of a decimal grid: {lit}`digits * 10 ^ place`. -/
structure Decimal where
  digits : Nat
  place : Int

/-- The reals that round to a positive finite number, in quarters of the unit of
its last bit: the lower end and the upper end.  Below a power of two the spacing
is half as wide. -/
def roundingInterval (significand : Nat) (exponent : Int) : Nat × Nat :=
  (4 * significand - (if significand = 2 ^ (52 : Nat) ∧ -1074 < exponent then 1 else 2),
    4 * significand + 2)

/-- Whether a number of steps of a grid reads back as a number, in quarters of the
unit of its last bit.  The ends of the interval read back when the significand is
even. -/
def readsBack (significand : Nat) (exponent : Int) (quarter step digits : Nat) : Bool :=
  let (low, high) := roundingInterval significand exponent
  if significand % 2 = 0 then low * quarter ≤ digits * step && digits * step ≤ high * quarter
  else low * quarter < digits * step && digits * step < high * quarter

/-- The decimal with its last digit at a place that reads back as a positive finite
number.  Only the two neighbours of the number on the decimal grid can; of two the
nearer is taken, and the even one of two that are equally near. -/
def decimalAt? (significand : Nat) (exponent place : Int) : Option Decimal :=
  -- a quarter of the last bit's unit is `quarter / step` steps of the grid
  let (quarter, half) := scaleDown 1 1 (2 - exponent)
  let quarter := if 0 ≤ place then quarter else quarter * 10 ^ (-place).toNat
  let step := if 0 ≤ place then half * 10 ^ place.toNat else half
  let mid := 4 * significand * quarter
  let nearest := roundHalfEven mid step
  let other := if nearest * step ≤ mid then nearest + 1 else nearest - 1
  if readsBack significand exponent quarter step nearest then some ⟨nearest, place⟩
  else if readsBack significand exponent quarter step other then some ⟨other, place⟩
  else none

/-- The first decimal that reads back, from a place downward. -/
def decimalFrom (significand : Nat) (exponent : Int) : Nat → Int → Decimal
  | 0, place => ⟨0, place⟩
  | steps + 1, place =>
    (decimalAt? significand exponent place).getD
      (decimalFrom significand exponent steps (place - 1))

/-- The shortest decimal of a positive finite number.  The search starts above
the number, where no grid has a point that reads back, and 17 significant digits
always do. -/
def shortestDecimal (significand : Nat) (exponent : Int) : Decimal :=
  let start := ((significand.log2 : Int) + 1 + exponent) * 30103 / 100000 + 2
  decimalFrom significand exponent 24 start

/-- The exponent part of a number in scientific notation. -/
def exponentText (exponent : Int) : Text :=
  let digits := natText exponent.natAbs
  'e' :: (if exponent < 0 then '-' else '+') ::
    (repeated (2 - digits.length) '0' ++ digits)

/-- The text of a positive decimal. -/
def Decimal.text (decimal : Decimal) : Text :=
  let digits := natText decimal.digits
  -- the number of digits before the point
  let point : Int := digits.length + decimal.place
  if -4 < point ∧ point ≤ 16 then
    if point ≤ 0 then
      '0' :: '.' :: (repeated (-point).toNat '0' ++ digits)
    else if 0 ≤ decimal.place then
      digits ++ repeated decimal.place.toNat '0' ++ ['.', '0']
    else digits.take point.toNat ++ '.' :: digits.drop point.toNat
  else
    digits.take 1 ++ (if digits.length = 1 then [] else '.' :: digits.drop 1) ++
      exponentText (point - 1)

/-- The shortest decimal text of a double-precision number. -/
def shortestText (x : Binary64) : Text :=
  let sign (negative : Bool) : Text := if negative then ['-'] else []
  match x.view with
  | .nan => "nan".toList
  | .infinite negative => sign negative ++ "inf".toList
  | .finite negative 0 _ => sign negative ++ "0.0".toList
  | .finite negative significand exponent =>
    sign negative ++ (shortestDecimal significand exponent).text

end PromptMarkup.Binary64
