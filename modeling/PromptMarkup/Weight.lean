import PromptMarkup.Bracket
import PromptMarkup.Number.FixedPlaces
import PromptMarkup.Number.Power

/-!
# Weights

Each curly bracket multiplies the weight of a span by 1.05 and each square
bracket divides it by 1.05.  Editors tint a weighted span by one of three
intensities.
-/

namespace PromptMarkup

/-- The greatest number of brackets around a span. -/
def maxLevel : Nat := 78

/-- The decimal places of a weight. -/
def weightPlaces : Nat := 4

/-- Why a span has no weight. -/
inductive WeightError where
  /-- The bracket type is none of the two. -/
  | notABracketType
  /-- The level is not a number, or a field cannot be compared at all. -/
  | notANumber
  /-- The weight is beyond double precision. -/
  | overflow
  /-- The weight is the reciprocal of zero. -/
  | divisionByZero
  /-- What is no weighted span has no weight. -/
  | notASpan
  /-- The number of brackets is greater than any length of a text. -/
  | notALength
  /-- There is no room for a text with that many brackets. -/
  | noRoom
deriving DecidableEq, Repr

/-- The double-precision number nearest to 1.05 is this over {lit}`baseUnits`. -/
def baseSignificand : Nat := 4728779608739021

/-- How many units of the last bit of its significand make one: 52 bits. -/
def baseUnits : Nat := 0x10000000000000

/-- A level from which on a power of 1.05 is infinite, and its negative zero. -/
def farLevel : Int := 16000

/-- The power of 1.05 by an integer. -/
def weightPower (level : Int) : Binary64 :=
  if level ≤ -farLevel then .zero false
  else if farLevel ≤ level then .infinity false
  else .integerPower baseSignificand baseUnits level

/-- The weight of a span inside a number of brackets. -/
def weight (type : BracketType) (level : Int) : Binary64 :=
  if level = 0 then .one
  else match type with
    | .increase => weightPower level
    | .decrease => (weightPower level).reciprocal?.getD (.infinity false)

/-- The tint of a span of a given weight. -/
def intensity (type : BracketType) (value : Binary64) : Binary64 :=
  let strong : Binary64 := ⟨0x3FE999999999999A⟩ -- 0.8
  let medium : Binary64 := ⟨0x3FE3333333333333⟩ -- 0.6
  let faint : Binary64 := ⟨0x3FD3333333333333⟩ -- 0.3
  match type with
  | .increase =>
    if Binary64.lt ⟨0x4008000000000000⟩ value then strong -- above 3.0
    else if Binary64.lt ⟨0x3FF8000000000000⟩ value then medium -- above 1.5
    else faint
  | .decrease =>
    if value.lt ⟨0x3FD999999999999A⟩ then strong -- below 0.4
    else if value.lt ⟨0x3FE6666666666666⟩ then medium -- below 0.7
    else faint

/-- The tint of a span inside a number of brackets. -/
def levelIntensity (type : BracketType) (level : Int) : Binary64 :=
  intensity type (weight type level)

/-- A weight with at most four decimal places. -/
def weightText (value : Binary64) : Text :=
  value.shortPlaces weightPlaces

/-! ## Checked weights -/

/-- The power of 1.05 by a double-precision number. -/
def realPower (level : Binary64) : Binary64 :=
  match level.view with
  | .nan => .nan
  | .infinite negative => if negative then .zero false else .infinity false
  | .finite negative significand exponent =>
    let whole := Binary64.truncated negative significand exponent
    if Binary64.isIntegral significand exponent || farLevel < whole.natAbs then
      weightPower whole
    else
      let (num, den) := Binary64.scaleDown significand 1 (-exponent)
      .fractionalPower baseSignificand baseUnits (if negative then -num else num) den

/-- A power of 1.05 by a finite number, refused when it is beyond double
precision. -/
def finitePower (level : Binary64) : Except WeightError Binary64 :=
  match level.view, (realPower level).view with
  | .finite .., .infinite _ => .error .overflow
  | _, _ => .ok (realPower level)

/-- The power of 1.05 by whatever a level field holds: truth values count as 0
and 1, and an integer has to be in the range of double precision. -/
def levelPower (level : Value) : Except WeightError Binary64 :=
  match level with
  | .bool b => finitePower (.ofInt b.toInt)
  | .int n =>
    match (Binary64.ofInt n).view with
    | .infinite _ => .error .overflow
    | _ => finitePower (.ofInt n)
  | .float x => finitePower x
  | _ => .error .notANumber

/-- Whether a level field holds a zero. -/
def isZeroLevel : Value → Bool
  | .bool b => !b
  | .int n => n == 0
  | .float x => x.isZero
  | _ => false

/-- Whether a value can be looked up by its contents. -/
def isScalar : Value → Bool
  | .list _ => false
  | .object _ => false
  | _ => true

/-- The weight shown for a span, from whatever its two fields hold.  A level of
zero has weight one inside brackets of any type. -/
def displayWeight (bracketType level : Value) : Except WeightError Binary64 :=
  if !isScalar bracketType || !isScalar level then .error .notANumber
  else if isZeroLevel level then .ok .one
  else
    match BracketType.ofValue? bracketType with
    | none => .error .notABracketType
    | some .increase => levelPower level
    | some .decrease =>
      match (levelPower level).map Binary64.reciprocal? with
      | .ok (some value) => .ok value
      | .ok none => .error .divisionByZero
      | .error e => .error e

/-- The tint of a weight, from whatever the bracket type field holds. -/
def displayIntensity (bracketType : Value) (value : Binary64) : Except WeightError Binary64 :=
  match BracketType.ofValue? bracketType with
  | none => .error .notABracketType
  | some type => .ok (intensity type value)

end PromptMarkup
