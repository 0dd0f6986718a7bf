import PromptMarkup.Number.Binary64
import PromptMarkup.Text.Basic

/-!
# Numbers with a fixed number of decimal places

The exact value of a double-precision number is rounded once to the wanted
decimal place, ties to the even digit.  A negative number keeps its sign even
when it rounds to zero.
-/

namespace PromptMarkup

-- Powers of numbers are those of core, whatever other instances are in scope.
attribute [local instance (5000)] instPowNat

/-- A number of decimal digits, with leading zeros up to a width. -/
def paddedDigits (width n : Nat) : Text :=
  let digits := natText n
  repeated (width - digits.length) '0' ++ digits

/-- A natural number of units of the last place, with the point before the last
{lit}`places` digits. -/
def withPoint (places n : Nat) : Text :=
  natText (n / 10 ^ places) ++ '.' :: paddedDigits places (n % 10 ^ places)

/-- A double-precision number with {lit}`places` decimal places. -/
def Binary64.fixedPlaces (places : Nat) (x : Binary64) : Text :=
  match x.view with
  | .nan => "nan".toList
  | .infinite negative => (if negative then ['-'] else []) ++ "inf".toList
  | .finite negative significand exponent =>
    let (num, den) := scaleDown (significand * 10 ^ places) 1 (-exponent)
    (if negative then ['-'] else []) ++ withPoint places (roundHalfEven num den)

/-- A text without the given character at its end. -/
def dropEnd (c : Char) (text : Text) : Text :=
  (text.reverse.dropWhile (· == c)).reverse

/-- A number with at most {lit}`places` decimal places: zeros at the end are left
out, then a point at the end. -/
def Binary64.shortPlaces (places : Nat) (x : Binary64) : Text :=
  dropEnd '.' (dropEnd '0' (x.fixedPlaces places))

end PromptMarkup
