/-!
# Double-precision numbers

A number of the IEEE 754 format binary64 is its 64 bits.  Its view says whether
it is a number at all and gives a finite one exactly, as an integer times a power
of two, so that every operation here is exact arithmetic followed by one rounding
to the nearest number, ties to the even significand.
-/

namespace PromptMarkup

-- Powers of numbers are those of core, whatever other instances are in scope.
attribute [local instance (5000)] instPowNat

/-- A double-precision number, by its bits. -/
structure Binary64 where
  bits : UInt64
deriving DecidableEq, Repr

/-- What the bits of a double-precision number stand for.  A finite number is
{lit}`significand * 2 ^ exponent`, with the exponent at least -1074. -/
inductive Binary64.View where
  | nan
  | infinite (negative : Bool)
  | finite (negative : Bool) (significand : Nat) (exponent : Int)
deriving DecidableEq, Repr

/-- The quotient of two natural numbers rounded to the nearest integer, a tie
to the even one. -/
def roundHalfEven (num den : Nat) : Nat :=
  let quotient := num / den
  let remainder := num % den
  if 2 * remainder < den then quotient
  else if den < 2 * remainder then quotient + 1
  else quotient + quotient % 2

namespace Binary64

/-- Read the sign, exponent and fraction fields. -/
def view (x : Binary64) : View :=
  let word : Nat := x.bits.toNat
  let negative : Bool := 2 ^ (63 : Nat) ≤ word
  let field : Nat := word / 2 ^ (52 : Nat) % 2048
  let fraction : Nat := word % 2 ^ (52 : Nat)
  if field = 2047 then
    if fraction = 0 then .infinite negative else .nan
  else if field = 0 then .finite negative fraction (-1074)
  else .finite negative (2 ^ (52 : Nat) + fraction) ((field : Int) - 1075)

/-- Assemble the bits of a number from its sign and the rest of the word. -/
def ofFields (negative : Bool) (magnitude : Nat) : Binary64 :=
  ⟨UInt64.ofNat ((if negative then 2 ^ (63 : Nat) else 0) + magnitude)⟩

/-- The infinity of a sign. -/
def infinity (negative : Bool) : Binary64 :=
  ofFields negative (2047 * 2 ^ (52 : Nat))

/-- The quiet not-a-number with an empty payload. -/
def nan : Binary64 :=
  ⟨0x7FF8000000000000⟩

/-- The zero of a sign. -/
def zero (negative : Bool) : Binary64 :=
  ofFields negative 0

/-- The number one. -/
def one : Binary64 :=
  ⟨0x3FF0000000000000⟩

/-- A significand below {lit}`2 ^ 53` times a power of two, infinite when the
exponent is past the largest. -/
def pack (negative : Bool) (significand : Nat) (exponent : Int) : Binary64 :=
  if significand < 2 ^ (52 : Nat) then ofFields negative significand
  else if 971 < exponent then infinity negative
  else ofFields negative
    ((exponent + 1075).toNat * 2 ^ (52 : Nat) + (significand - 2 ^ (52 : Nat)))

/-- Numerator and denominator of {lit}`num / den / 2 ^ exponent`. -/
def scaleDown (num den : Nat) (exponent : Int) : Nat × Nat :=
  if 0 ≤ exponent then (num, den * 2 ^ exponent.toNat)
  else (num * 2 ^ (-exponent).toNat, den)

/-- The exponent that gives a positive quotient 53 significant bits, or the
smallest exponent there is. -/
def quotientExponent (num den : Nat) : Int :=
  let guess : Int := (num.log2 : Int) - den.log2 - 53
  let (n, d) := scaleDown num den guess
  max (if n / d < 2 ^ (53 : Nat) then guess else guess + 1) (-1074)

/-- The double-precision number nearest to a quotient of natural numbers. -/
def ofQuotient (negative : Bool) (num den : Nat) : Binary64 :=
  if num = 0 then zero negative
  else
    let exponent := quotientExponent num den
    let (n, d) := scaleDown num den exponent
    let significand := roundHalfEven n d
    if significand = 2 ^ (53 : Nat) then pack negative (2 ^ (52 : Nat)) (exponent + 1)
    else pack negative significand exponent

/-- The number nearest to an integer. -/
def ofInt (n : Int) : Binary64 :=
  ofQuotient (n < 0) n.natAbs 1

/-- A finite number in units of the smallest positive one, {lit}`2 ^ -1074`. -/
def units (negative : Bool) (significand : Nat) (exponent : Int) : Int :=
  let size : Int := significand * 2 ^ (exponent + 1074).toNat
  if negative then -size else size

/-- Whether one number is less than another; never true of a not-a-number. -/
def lt (x y : Binary64) : Bool :=
  match x.view, y.view with
  | .nan, _ => false
  | _, .nan => false
  | .infinite s, .infinite t => s && !t
  | .infinite s, .finite .. => s
  | .finite .., .infinite t => !t
  | .finite s m e, .finite t n f => units s m e < units t n f

/-- Whether one number is at most another; never true of a not-a-number. -/
def le (x y : Binary64) : Bool :=
  match x.view, y.view with
  | .nan, _ => false
  | _, .nan => false
  | _, _ => !y.lt x

/-- Whether the number is a zero of either sign. -/
def isZero (x : Binary64) : Bool :=
  match x.view with
  | .finite _ 0 _ => true
  | _ => false

/-- The reciprocal of a number, and nothing for a zero. -/
def reciprocal? (x : Binary64) : Option Binary64 :=
  match x.view with
  | .nan => some nan
  | .infinite s => some (zero s)
  | .finite _ 0 _ => none
  | .finite s m e =>
    let (den, num) := scaleDown m 1 (-e)
    some (ofQuotient s num den)

/-- The integer part of a finite number, toward zero. -/
def truncated (negative : Bool) (significand : Nat) (exponent : Int) : Int :=
  let (n, d) := scaleDown significand 1 (-exponent)
  let size : Int := (n / d : Nat)
  if negative then -size else size

/-- Whether a finite number is an integer. -/
def isIntegral (significand : Nat) (exponent : Int) : Bool :=
  let (n, d) := scaleDown significand 1 (-exponent)
  n % d == 0

/-- The greatest integer not above the product of a number and a count, the
product rounded to double precision first.  There is none for a product that is
infinite or no number. -/
def timesFloor (x : Binary64) (count : Nat) : Except View Int :=
  match x.view with
  | .nan => .error .nan
  | .infinite s => .error (if count = 0 then .nan else .infinite s)
  | .finite s m e =>
    let (n, d) := scaleDown (m * count) 1 (-e)
    match (ofQuotient s n d).view with
    | .finite t k f =>
      let (n, d) := scaleDown k 1 (-f)
      .ok (if t then -(((n + d - 1) / d : Nat) : Int) else ((n / d : Nat) : Int))
    | other => .error other

end Binary64

end PromptMarkup
