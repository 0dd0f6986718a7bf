import PromptMarkup.Proofs.RoundedQuotients
import PromptMarkup.Segment.Create
import PromptMarkup.Segment.Weight

/-!
# Shown weights

The weight of a span with a level in range is a positive finite number.  It is a power of 1.05,
rounded once, or the reciprocal of such a number, rounded again.  Rounding keeps the order of
quotients, so a weight that increases does so with every level and one that decreases does so too,
up to rounding.  Hence a tint belongs to all levels from one to another, and the levels at which it
changes are found by looking at those levels alone.

Main statements:

- {lit}`hasUnits_weight` and {lit}`weightUnits_mono`: weights in the smallest units, and their
  order.
- {lit}`displayWeight_eq`: the weight that is shown for a bracket type and a level in range.
- {lit}`levelIntensity_eq`: the levels of each tint.
-/

namespace PromptMarkup

-- Powers of numbers are those of core, whatever other instances are in scope.
attribute [local instance (5000)] instPowNat

namespace Binary64

/-! ## Reciprocals -/

/-- Scaling a number of the smallest units up to a quotient leaves the number. -/
theorem scaleDown_neg_mul (significand : Nat) {exponent : Int} (h : -1074 ≤ exponent) :
    (scaleDown significand 1 (-exponent)).1 * unitsInOne =
      (scaleDown significand 1 (-exponent)).2 *
        (significand * 2 ^ (exponent + 1074).toNat) := by
  unfold scaleDown
  split
  · have hunits : unitsInOne = 2 ^ (-exponent).toNat * 2 ^ (exponent + 1074).toNat :=
      unitsInOne_eq (by omega)
    rw [hunits]
    show significand * _ = 1 * 2 ^ (-exponent).toNat * _
    ac_rfl
  · have hsum : (exponent + 1074).toNat = (-(-exponent)).toNat + 1074 := by omega
    rw [hsum, pow_mul_unitsInOne rfl]
    show significand * 2 ^ (-(-exponent)).toNat * unitsInOne = 1 * _
    rw [Nat.one_mul]
    generalize unitsInOne = units
    ac_rfl

/-- Equal quotients are rounded alike. -/
theorem roundedUnits_congr {num den num' den' : Nat} (hnum : num ≠ 0) (hden : 0 < den)
    (hden' : 0 < den') (h : num * den' = num' * den) :
    roundedUnits num den = roundedUnits num' den' := by
  have hnum' : num' ≠ 0 := by
    rintro rfl
    have hpos := Nat.mul_pos (Nat.pos_of_ne_zero hnum) hden'
    omega
  exact Nat.le_antisymm (roundedUnits_mono hnum hden hden' (Nat.le_of_eq h))
    (roundedUnits_mono hnum' hden' hden (Nat.le_of_eq h.symm))

/-- A number that is not less than one has a reciprocal, which is rounded once. -/
theorem HasUnits.exists_reciprocal {x : Binary64} {count : Nat} (h : x.HasUnits count)
    (hone : unitsInOne ≤ count) :
    ∃ y, x.reciprocal? = some y ∧ y.HasUnits (roundedUnits unitsInOne count) := by
  rcases h with ⟨significand, exponent, hview, rfl⟩
  have hinOne := unitsInOne_pos
  have hne : significand ≠ 0 := by
    rintro rfl
    rw [Nat.zero_mul] at hone
    omega
  have hreciprocal : x.reciprocal? = some (ofQuotient false
      (scaleDown significand 1 (-exponent)).2 (scaleDown significand 1 (-exponent)).1) := by
    unfold reciprocal?
    rw [hview]
    split
    · rename_i heq
      cases heq
    · rename_i heq
      cases heq
    · rename_i heq
      cases heq
      exact absurd rfl hne
    · rename_i heq
      cases heq
      rfl
  have hscaled := scaleDown_neg_mul significand (exponent_le_of_view hview)
  have hnum : 0 < (scaleDown significand 1 (-exponent)).2 := scaleDown_snd_pos _ Nat.zero_lt_one _
  generalize significand * 2 ^ (exponent + 1074).toNat = count at *
  generalize scaleDown significand 1 (-exponent) = quotient at *
  generalize unitsInOne = inOne at *
  have hle : quotient.2 ≤ quotient.1 := by
    refine Nat.le_of_mul_le_mul_right (c := inOne) ?_ hinOne
    rw [hscaled]
    exact Nat.mul_le_mul_left _ hone
  have hsame : roundedUnits quotient.2 quotient.1 = roundedUnits inOne count :=
    roundedUnits_congr (by omega) (by omega) (by omega) (by rw [← hscaled, Nat.mul_comm])
  have hsize : quotient.2.log2 ≤ quotient.1.log2 :=
    (Nat.le_log2 (by omega)).mpr (Nat.le_trans (Nat.log2_self_le (by omega)) hle)
  refine ⟨_, hreciprocal, ?_⟩
  rw [← hsame]
  exact hasUnits_ofQuotient (by omega) (by omega) (by omega)

end Binary64

/-! ## Weights in the smallest units -/

/-- The number of smallest units of the weight of a span inside a number of brackets. -/
def weightUnits (type : BracketType) (level : Nat) : Nat :=
  let power := Binary64.roundedUnits (baseSignificand ^ level) (baseUnits ^ level)
  match type with
  | .increase => power
  | .decrease => Binary64.roundedUnits Binary64.unitsInOne power

/-- A power of 1.05 grows with the level. -/
theorem power_mono {low high : Nat} (h : low ≤ high) :
    baseSignificand ^ low * baseUnits ^ high ≤ baseSignificand ^ high * baseUnits ^ low := by
  have hbase : baseUnits ^ (high - low) ≤ baseSignificand ^ (high - low) :=
    Nat.pow_le_pow_left (by decide) _
  have hsum : high = low + (high - low) := by omega
  calc baseSignificand ^ low * baseUnits ^ high
      = baseSignificand ^ low * (baseUnits ^ low * baseUnits ^ (high - low)) := by
        rw [← Nat.pow_add, ← hsum]
    _ ≤ baseSignificand ^ low * (baseUnits ^ low * baseSignificand ^ (high - low)) :=
      Nat.mul_le_mul_left _ (Nat.mul_le_mul_left _ hbase)
    _ = baseSignificand ^ low * baseSignificand ^ (high - low) * baseUnits ^ low := by ac_rfl
    _ = baseSignificand ^ high * baseUnits ^ low := by rw [← Nat.pow_add, ← hsum]

/-- The units of the numerator of a power are there. -/
theorem baseSignificand_pow_ne_zero (level : Nat) : baseSignificand ^ level ≠ 0 :=
  Nat.ne_of_gt (Nat.pow_pos (by decide))

/-- The units of the denominator of a power are there. -/
theorem baseUnits_pow_pos (level : Nat) : 0 < baseUnits ^ level :=
  Nat.pow_pos (by decide)

/-- A power of 1.05 by a level in range is not too large. -/
theorem log2_power_le {level : Nat} (h : level ≤ maxLevel) :
    ((baseSignificand ^ level).log2 : Int) ≤ (baseUnits ^ level).log2 + 1022 := by
  have hnum : (baseSignificand ^ level).log2 < 53 * level + 1 := by
    rw [Nat.log2_lt (baseSignificand_pow_ne_zero level)]
    calc baseSignificand ^ level ≤ (2 ^ (53 : Nat)) ^ level := Nat.pow_le_pow_left (by decide) _
      _ = 2 ^ (53 * level) := (Nat.pow_mul ..).symm
      _ < 2 ^ (53 * level + 1) := Nat.pow_lt_pow_right Nat.one_lt_two (Nat.lt_succ_self _)
  have hden : 52 * level ≤ (baseUnits ^ level).log2 := by
    rw [Nat.le_log2 (Nat.ne_of_gt (baseUnits_pow_pos level))]
    calc 2 ^ (52 * level) = (2 ^ (52 : Nat)) ^ level := Nat.pow_mul ..
      _ ≤ baseUnits ^ level := Nat.pow_le_pow_left (by decide) _
  have hlevel : level ≤ 78 := h
  omega

/-- A level in range has a power of 1.05. -/
theorem hasUnits_weightPower {level : Nat} (h : level ≤ maxLevel) :
    (weightPower level).HasUnits (weightUnits .increase level) := by
  have hlevel : level ≤ 78 := h
  have hpower : weightPower level =
      .ofQuotient false (baseSignificand ^ level) (baseUnits ^ level) := by
    have hnear : ¬(level : Int) ≤ -farLevel := by unfold farLevel; omega
    have hfar : ¬farLevel ≤ (level : Int) := by unfold farLevel; omega
    rw [weightPower, if_neg hnear, if_neg hfar, Binary64.integerPower, if_pos (by omega),
      Int.natAbs_natCast]
  rw [hpower]
  exact Binary64.hasUnits_ofQuotient (baseSignificand_pow_ne_zero level)
    (baseUnits_pow_pos level) (log2_power_le h)

/-- The weight of a span that increases it is not less than one. -/
theorem unitsInOne_le_weightUnits (level : Nat) :
    Binary64.unitsInOne ≤ weightUnits .increase level := by
  have hone : Binary64.unitsInOne =
      Binary64.roundedUnits (baseSignificand ^ 0) (baseUnits ^ 0) := by
    decide +kernel
  rw [hone]
  exact Binary64.roundedUnits_mono (baseSignificand_pow_ne_zero 0) (baseUnits_pow_pos 0)
    (baseUnits_pow_pos level) (power_mono (Nat.zero_le level))

/-- The power of a level in range has a reciprocal. -/
theorem exists_reciprocal_weightPower {level : Nat} (h : level ≤ maxLevel) :
    ∃ value, (weightPower level).reciprocal? = some value ∧
      value.HasUnits (weightUnits .decrease level) :=
  (hasUnits_weightPower h).exists_reciprocal (unitsInOne_le_weightUnits level)

/-- The weight of a span with a level in range, in the smallest units. -/
theorem hasUnits_weight (type : BracketType) {level : Nat} (h : level ≤ maxLevel) :
    (weight type level).HasUnits (weightUnits type level) := by
  by_cases hzero : level = 0
  · subst hzero
    cases type
    · exact ⟨2 ^ (52 : Nat), -52, by decide, by decide +kernel⟩
    · exact ⟨2 ^ (52 : Nat), -52, by decide, by decide +kernel⟩
  · unfold weight
    rw [if_neg (by omega)]
    cases type with
    | increase => exact hasUnits_weightPower h
    | decrease =>
      rcases exists_reciprocal_weightPower h with ⟨value, hvalue, hunits⟩
      simp only [hvalue, Option.getD_some]
      exact hunits

/-- With more brackets a span that increases its weight has no less of it, and one that decreases
its weight no more. -/
theorem weightUnits_mono {low high : Nat} (h : low ≤ high) :
    weightUnits .increase low ≤ weightUnits .increase high ∧
      weightUnits .decrease high ≤ weightUnits .decrease low := by
  have hpower : weightUnits .increase low ≤ weightUnits .increase high :=
    Binary64.roundedUnits_mono (baseSignificand_pow_ne_zero low) (baseUnits_pow_pos low)
      (baseUnits_pow_pos high) (power_mono h)
  have hone := unitsInOne_le_weightUnits low
  have hpos := Binary64.unitsInOne_pos
  refine ⟨hpower, ?_⟩
  show Binary64.roundedUnits Binary64.unitsInOne (weightUnits .increase high) ≤
    Binary64.roundedUnits Binary64.unitsInOne (weightUnits .increase low)
  generalize Binary64.unitsInOne = inOne at *
  exact Binary64.roundedUnits_mono (by omega) (by omega) (by omega)
    (Nat.mul_le_mul_left _ hpower)

/-! ## Shown weights -/

/-- A bracket type is named by its value. -/
@[simp] theorem BracketType.ofValue?_toValue (type : BracketType) :
    BracketType.ofValue? type.toValue = some type := by
  cases type <;> decide

/-- A level in range is a double-precision number without a fractional part. -/
theorem view_ofInt_level : ∀ level ≤ maxLevel, level ≠ 0 →
    (Binary64.ofInt level).view =
        .finite false (level * 2 ^ (52 - level.log2)) ((level.log2 : Int) - 52) ∧
      Binary64.truncated false (level * 2 ^ (52 - level.log2)) ((level.log2 : Int) - 52) = level ∧
      Binary64.isIntegral (level * 2 ^ (52 - level.log2)) ((level.log2 : Int) - 52) = true := by
  decide +kernel

/-- The power of 1.05 by a level in range is that of the level as an integer. -/
theorem levelPower_eq {level : Nat} (h : level ≤ maxLevel) (hzero : level ≠ 0) :
    levelPower (.int level) = .ok (weightPower level) := by
  rcases view_ofInt_level level h hzero with ⟨hview, hwhole, hintegral⟩
  have hpower : realPower (.ofInt level) = weightPower level := by
    simp only [realPower, hview, hwhole, hintegral, Bool.true_or, if_true]
  rcases hasUnits_weightPower h with ⟨significand, exponent, hfinite, -⟩
  have hresult : finitePower (.ofInt level) = .ok (weightPower level) := by
    simp only [finitePower, hpower, hview, hfinite]
  simp only [levelPower, hview, hresult]

/-- The weight that is shown for a bracket type and a level in range is the weight of a span. -/
theorem displayWeight_eq (type : BracketType) {level : Nat} (h : level ≤ maxLevel) :
    displayWeight type.toValue (.int level) = .ok (weight type level) := by
  have hscalar : isScalar type.toValue = true := rfl
  by_cases hzero : level = 0
  · subst hzero
    cases type <;> rfl
  · have hlevel : isZeroLevel (.int level) = false := by simpa [isZeroLevel] using hzero
    have hnatural : ¬(level : Int) = 0 := by omega
    unfold displayWeight weight
    rw [hscalar, hlevel, if_neg hnatural, BracketType.ofValue?_toValue]
    cases type with
    | increase => exact levelPower_eq h hzero
    | decrease =>
      rcases exists_reciprocal_weightPower h with ⟨value, hvalue, -⟩
      simp only [levelPower_eq h hzero, Except.map, hvalue]
      rfl

/-- The tint that is shown for the weight of a level in range. -/
theorem displayIntensity_eq (type : BracketType) (level : Nat) :
    displayIntensity type.toValue (weight type level) = .ok (levelIntensity type level) := by
  rw [displayIntensity, BracketType.ofValue?_toValue]
  rfl

/-! ## Tints -/

/-- How strongly a span is tinted. -/
inductive Tint where
  | faint
  | medium
  | strong
deriving DecidableEq, Repr

/-- The intensity of a tint. -/
def Tint.intensity : Tint → Binary64
  | .faint => ⟨0x3FD3333333333333⟩ -- 0.3
  | .medium => ⟨0x3FE3333333333333⟩ -- 0.6
  | .strong => ⟨0x3FE999999999999A⟩ -- 0.8

/-- The tint of a span inside a number of brackets. -/
def BracketType.tint (level : Nat) : BracketType → Tint
  | .increase => if 22 < level then .strong else if 8 < level then .medium else .faint
  | .decrease => if 18 < level then .strong else if 7 < level then .medium else .faint

/-- Tints differ in their intensity. -/
theorem Tint.intensity_inj {first second : Tint} :
    first.intensity = second.intensity ↔ first = second := by
  cases first <;> cases second <;> decide

section Thresholds

variable {x : Binary64} {significand last level : Nat} {exponent : Int}
  (hview : x.view = .finite false significand exponent) (hlast : last < maxLevel)
  (h : level ≤ maxLevel)

include hview hlast h

/-- A number that two levels in a row lie around is less than the weights that increase by more. -/
theorem lt_weight_iff (hbelow : x.lt (weight .increase last) = false)
    (habove : x.lt (weight .increase (last + 1 : Nat)) = true) :
    x.lt (weight .increase level) = true ↔ last < level := by
  have hx : x.HasUnits _ := ⟨significand, exponent, hview, rfl⟩
  rw [Bool.eq_false_iff, Ne, hx.lt_iff (hasUnits_weight _ (Nat.le_of_lt hlast))] at hbelow
  rw [hx.lt_iff (hasUnits_weight _ hlast)] at habove
  rw [hx.lt_iff (hasUnits_weight _ h)]
  constructor
  · intro hlt
    refine Nat.lt_of_not_le fun hle => hbelow ?_
    exact Nat.lt_of_lt_of_le hlt (weightUnits_mono hle).1
  · intro hlt
    exact Nat.lt_of_lt_of_le habove (weightUnits_mono hlt).1

/-- A number that two levels in a row lie around is more than the weights that decrease by more. -/
theorem weight_lt_iff (habove : (weight .decrease last).lt x = false)
    (hbelow : (weight .decrease (last + 1 : Nat)).lt x = true) :
    (weight .decrease level).lt x = true ↔ last < level := by
  have hx : x.HasUnits _ := ⟨significand, exponent, hview, rfl⟩
  rw [Bool.eq_false_iff, Ne, (hasUnits_weight _ (Nat.le_of_lt hlast)).lt_iff hx] at habove
  rw [(hasUnits_weight _ hlast).lt_iff hx] at hbelow
  rw [(hasUnits_weight _ h).lt_iff hx]
  constructor
  · intro hlt
    refine Nat.lt_of_not_le fun hle => habove ?_
    exact Nat.lt_of_le_of_lt (weightUnits_mono hle).2 hlt
  · intro hlt
    exact Nat.lt_of_le_of_lt (weightUnits_mono hlt).2 hbelow

end Thresholds

/-- A span that increases its weight is tinted medium from 9 brackets on and strong from 23 on, and
one that decreases its weight from 8 and from 19 on. -/
theorem levelIntensity_eq (type : BracketType) {level : Nat} (h : level ≤ maxLevel) :
    levelIntensity type level = (type.tint level).intensity := by
  unfold levelIntensity intensity
  cases type with
  | increase =>
    have hthree : Binary64.view ⟨0x4008000000000000⟩ =
        .finite false (3 * 2 ^ (51 : Nat)) (-51) := by
      decide
    have hhalves : Binary64.view ⟨0x3FF8000000000000⟩ =
        .finite false (3 * 2 ^ (51 : Nat)) (-52) := by
      decide
    have hstrong := lt_weight_iff hthree (by decide : 22 < maxLevel) h (by decide +kernel)
      (by decide +kernel)
    have hmedium := lt_weight_iff hhalves (by decide : 8 < maxLevel) h (by decide +kernel)
      (by decide +kernel)
    simp only [hstrong, hmedium, BracketType.tint]
    split
    · rfl
    · split <;> rfl
  | decrease =>
    have hfifths : Binary64.view ⟨0x3FD999999999999A⟩ =
        .finite false 0x1999999999999A (-54) := by
      decide
    have htenths : Binary64.view ⟨0x3FE6666666666666⟩ =
        .finite false 0x16666666666666 (-53) := by
      decide
    have hstrong := weight_lt_iff hfifths (by decide : 18 < maxLevel) h (by decide +kernel)
      (by decide +kernel)
    have hmedium := weight_lt_iff htenths (by decide : 7 < maxLevel) h (by decide +kernel)
      (by decide +kernel)
    simp only [hstrong, hmedium, BracketType.tint]
    split
    · rfl
    · split <;> rfl

end PromptMarkup
