import PromptMarkup.Proofs.UnitDraws

/-!
# Rounded quotients

A quotient is divided by the power of two that leaves it 53 significant bits, or by the smallest
there is, and is rounded to an integer.  So in the smallest units the rounded number is that integer
times the power of two, and two quotients keep their order when they are rounded: with the same
power their integers are in order, and with different powers the number with the greater power has
all of its bits.

Main statements:

- {lit}`scaleDown_quotientExponent_ge`: above the smallest power a quotient has all of its bits.
- {lit}`hasUnits_ofQuotient`: the number of smallest units that a quotient is rounded to.
- {lit}`roundedUnits_mono`: rounding keeps the order of quotients.
-/

namespace PromptMarkup

-- Powers of numbers are those of core, whatever other instances are in scope.
attribute [local instance (5000)] instPowNat

namespace Binary64

/-! ## Rounding to an integer -/

/-- Rounding a quotient takes nothing off its integer part. -/
theorem div_le_roundHalfEven (num den : Nat) : num / den ≤ roundHalfEven num den := by
  unfold roundHalfEven
  dsimp only
  split
  · omega
  · split <;> omega

/-- Of two quotients with one integer part the one with the smaller rest is not rounded to more. -/
theorem roundHalfEven_le_of_mod {num den num' den' : Nat} (hden : 0 < den) (hden' : 0 < den')
    (hdiv : num / den = num' / den') (hmod : num % den * den' ≤ num' % den' * den) :
    roundHalfEven num den ≤ roundHalfEven num' den' := by
  have hless : 2 * (num' % den') < den' → 2 * (num % den) < den := by
    intro h
    refine Nat.lt_of_mul_lt_mul_right (a := den') ?_
    calc 2 * (num % den) * den' = 2 * (num % den * den') := Nat.mul_assoc ..
      _ ≤ 2 * (num' % den' * den) := Nat.mul_le_mul_left 2 hmod
      _ = 2 * (num' % den') * den := (Nat.mul_assoc ..).symm
      _ < den' * den := Nat.mul_lt_mul_of_pos_right h hden
      _ = den * den' := Nat.mul_comm ..
  have hmore : den < 2 * (num % den) → den' < 2 * (num' % den') := by
    intro h
    refine Nat.lt_of_mul_lt_mul_right (a := den) ?_
    calc den' * den = den * den' := Nat.mul_comm ..
      _ < 2 * (num % den) * den' := Nat.mul_lt_mul_of_pos_right h hden'
      _ = 2 * (num % den * den') := Nat.mul_assoc ..
      _ ≤ 2 * (num' % den' * den) := Nat.mul_le_mul_left 2 hmod
      _ = 2 * (num' % den') * den := (Nat.mul_assoc ..).symm
  unfold roundHalfEven
  dsimp only
  rw [hdiv]
  generalize num' / den' = quotient
  split
  · split
    · omega
    · split <;> omega
  · split
    · refine Nat.le_of_eq ?_
      rw [if_neg fun h => by have := hless h; omega, if_pos (hmore ‹_›)]
    · rw [if_neg fun h => by have := hless h; omega]
      split <;> omega

/-- A smaller quotient is not rounded to more. -/
theorem roundHalfEven_mono {num den num' den' : Nat} (hden : 0 < den) (hden' : 0 < den')
    (h : num * den' ≤ num' * den) : roundHalfEven num den ≤ roundHalfEven num' den' := by
  have hdiv : num / den ≤ num' / den' := by
    rw [Nat.le_div_iff_mul_le hden']
    refine Nat.le_of_mul_le_mul_right (c := den) ?_ hden
    calc num / den * den' * den = num / den * den * den' := Nat.mul_right_comm ..
      _ ≤ num * den' := Nat.mul_le_mul_right _ (Nat.div_mul_le_self num den)
      _ ≤ num' * den := h
  rcases Nat.lt_or_eq_of_le hdiv with hlt | heq
  · calc roundHalfEven num den ≤ num / den + 1 := roundHalfEven_le num den
      _ ≤ num' / den' := hlt
      _ ≤ roundHalfEven num' den' := div_le_roundHalfEven num' den'
  · refine roundHalfEven_le_of_mod hden hden' heq ?_
    have hsplit : num * den' = num / den * den * den' + num % den * den' := by
      rw [← Nat.add_mul, Nat.div_add_mod']
    have hsplit' : num' * den = num' / den' * den' * den + num' % den' * den := by
      rw [← Nat.add_mul, Nat.div_add_mod']
    have hsame : num / den * den * den' = num' / den' * den' * den := by
      rw [heq, Nat.mul_right_comm]
    omega

/-! ## Scaling -/

/-- A positive denominator stays positive. -/
theorem scaleDown_snd_pos (num : Nat) {den : Nat} (hden : 0 < den) (exponent : Int) :
    0 < (scaleDown num den exponent).2 := by
  unfold scaleDown
  split
  · exact Nat.mul_pos hden (Nat.two_pow_pos _)
  · exact hden

/-- The units of a power of two are a power of two. -/
theorem pow_mul_unitsInOne {first second : Nat} (h : second = 1074) :
    2 ^ (first + second) = 2 ^ first * unitsInOne := by
  rw [Nat.pow_add, h, unitsInOne]

/-- The next power of two has twice as many units. -/
theorem pow_units_succ {exponent : Int} (h : -1074 ≤ exponent) :
    2 ^ (exponent + 1 + 1074).toNat = 2 * 2 ^ (exponent + 1074).toNat := by
  have hnext : (exponent + 1 + 1074).toNat = (exponent + 1074).toNat + 1 := by omega
  rw [hnext, Nat.pow_succ, Nat.mul_comm]

/-- The least number of 54 bits is twice the least of 53 bits. -/
theorem two_pow_53 : 2 ^ (53 : Nat) = 2 * 2 ^ (52 : Nat) := by
  decide

/-- Scaling a quotient down by a power of two, and counting that power in the smallest units, leaves
the quotient. -/
theorem scaleDown_mul (num den : Nat) {exponent : Int} (h : -1074 ≤ exponent) :
    (scaleDown num den exponent).1 * den * 2 ^ (exponent + 1074).toNat =
      num * (scaleDown num den exponent).2 * unitsInOne := by
  unfold scaleDown
  split
  · have hsum : (exponent + 1074).toNat = exponent.toNat + 1074 := by omega
    rw [hsum, pow_mul_unitsInOne rfl]
    show num * den * (2 ^ exponent.toNat * unitsInOne) =
      num * (den * 2 ^ exponent.toNat) * unitsInOne
    generalize unitsInOne = units
    ac_rfl
  · have hunits : unitsInOne = 2 ^ (-exponent).toNat * 2 ^ (exponent + 1074).toNat :=
      unitsInOne_eq (by omega)
    rw [hunits]
    show num * 2 ^ (-exponent).toNat * den * 2 ^ (exponent + 1074).toNat =
      num * den * (2 ^ (-exponent).toNat * 2 ^ (exponent + 1074).toNat)
    ac_rfl

/-- The next power of two leaves half of a quotient. -/
theorem scaleDown_succ (num den : Nat) (exponent : Int) :
    (scaleDown num den exponent).1 * (scaleDown num den (exponent + 1)).2 =
      2 * (scaleDown num den (exponent + 1)).1 * (scaleDown num den exponent).2 := by
  unfold scaleDown
  rcases Int.lt_trichotomy exponent (-1) with hlt | rfl | hgt
  · rw [if_neg (by omega), if_neg (by omega)]
    have hpow : (-exponent).toNat = (-(exponent + 1)).toNat + 1 := by omega
    dsimp only
    rw [hpow, Nat.pow_succ]
    ac_rfl
  · show num * 2 ^ (1 : Nat) * (den * 2 ^ (0 : Nat)) = 2 * num * den
    ac_rfl
  · rw [if_pos (by omega), if_pos (by omega)]
    have hpow : (exponent + 1).toNat = exponent.toNat + 1 := by omega
    dsimp only
    rw [hpow, Nat.pow_succ]
    ac_rfl

/-- The bits of a quotient after scaling, from below. -/
theorem scaleDown_ge {num den bits : Nat} {exponent : Int} (hnum : num ≠ 0)
    (h : (den.log2 : Int) + 1 + exponent + bits ≤ num.log2) :
    (scaleDown num den exponent).2 * 2 ^ bits ≤ (scaleDown num den exponent).1 := by
  have hden : den ≤ 2 ^ (den.log2 + 1) := Nat.le_of_lt Nat.lt_log2_self
  have hpow : 2 ^ num.log2 ≤ num := Nat.log2_self_le hnum
  unfold scaleDown
  split
  · calc den * 2 ^ exponent.toNat * 2 ^ bits
        ≤ 2 ^ (den.log2 + 1) * 2 ^ exponent.toNat * 2 ^ bits :=
        Nat.mul_le_mul_right _ (Nat.mul_le_mul_right _ hden)
      _ = 2 ^ (den.log2 + 1 + exponent.toNat + bits) := by rw [← Nat.pow_add, ← Nat.pow_add]
      _ ≤ 2 ^ num.log2 := Nat.pow_le_pow_right Nat.zero_lt_two (by omega)
      _ ≤ num := hpow
  · calc den * 2 ^ bits ≤ 2 ^ (den.log2 + 1) * 2 ^ bits := Nat.mul_le_mul_right _ hden
      _ = 2 ^ (den.log2 + 1 + bits) := (Nat.pow_add ..).symm
      _ ≤ 2 ^ (num.log2 + (-exponent).toNat) :=
        Nat.pow_le_pow_right Nat.zero_lt_two (by omega)
      _ = 2 ^ num.log2 * 2 ^ (-exponent).toNat := Nat.pow_add ..
      _ ≤ num * 2 ^ (-exponent).toNat := Nat.mul_le_mul_right _ hpow

/-- The exponent of a quotient is not below the smallest. -/
theorem le_quotientExponent (num den : Nat) : -1074 ≤ quotientExponent num den := by
  unfold quotientExponent
  dsimp only
  exact Int.le_max_right ..

/-- A quotient has 53 significant bits with its exponent, unless that is the smallest. -/
theorem scaleDown_quotientExponent_ge {num den : Nat} (hnum : num ≠ 0) (hden : 0 < den)
    (h : -1074 < quotientExponent num den) :
    2 ^ (52 : Nat) * (scaleDown num den (quotientExponent num den)).2 ≤
      (scaleDown num den (quotientExponent num den)).1 := by
  have hguess : quotientExponent num den = (num.log2 : Int) - den.log2 - 53 ∨
      quotientExponent num den = (num.log2 : Int) - den.log2 - 53 + 1 ∧
        2 ^ (53 : Nat) ≤ (scaleDown num den ((num.log2 : Int) - den.log2 - 53)).1 /
          (scaleDown num den ((num.log2 : Int) - den.log2 - 53)).2 := by
    unfold quotientExponent at h ⊢
    dsimp only at h ⊢
    split at h
    · rename_i htried
      rw [if_pos htried]
      omega
    · rename_i htried
      rw [if_neg htried]
      omega
  rcases hguess with heq | ⟨heq, hlarge⟩
  · rw [heq, Nat.mul_comm]
    exact scaleDown_ge hnum (by omega)
  · rw [heq]
    generalize hexponent : (num.log2 : Int) - den.log2 - 53 = guess at hlarge ⊢
    have hpos := scaleDown_snd_pos num hden guess
    have hle := (Nat.le_div_iff_mul_le hpos).mp hlarge
    have hhalf := scaleDown_succ num den guess
    -- The guess leaves 54 bits, so half of that leaves 53.
    refine Nat.le_of_mul_le_mul_right (c := 2 * (scaleDown num den guess).2) ?_ (by omega)
    calc 2 ^ (52 : Nat) * (scaleDown num den (guess + 1)).2 * (2 * (scaleDown num den guess).2)
        = 2 ^ (53 : Nat) * (scaleDown num den guess).2 * (scaleDown num den (guess + 1)).2 := by
          rw [two_pow_53]
          ac_rfl
      _ ≤ (scaleDown num den guess).1 * (scaleDown num den (guess + 1)).2 :=
        Nat.mul_le_mul_right _ hle
      _ = (scaleDown num den (guess + 1)).1 * (2 * (scaleDown num den guess).2) := by
          rw [hhalf]
          ac_rfl

/-! ## Numbers in the smallest units -/

/-- A finite number that is not below zero comes to a number of the smallest units. -/
def HasUnits (x : Binary64) (count : Nat) : Prop :=
  ∃ significand exponent, x.view = .finite false significand exponent ∧
    significand * 2 ^ (exponent + 1074).toNat = count

/-- Numbers are compared by their units. -/
theorem HasUnits.lt_iff {x y : Binary64} {count count' : Nat} (hx : x.HasUnits count)
    (hy : y.HasUnits count') : x.lt y = true ↔ count < count' := by
  rcases hx with ⟨significand, exponent, hview, rfl⟩
  rcases hy with ⟨significand', exponent', hview', rfl⟩
  simp only [lt, hview, hview', units_eq, Bool.false_eq_true, if_false, decide_eq_true_eq,
    Int.ofNat_lt]

/-- The fields of a number with the smallest exponent are read back. -/
theorem view_ofFields_small {fraction : Nat} (h : fraction < 2 ^ (52 : Nat)) :
    (ofFields false fraction).view = .finite false fraction (-1074) := by
  have hword : (ofFields false fraction).bits.toNat = fraction := by
    simp only [ofFields, Bool.false_eq_true, if_false, Nat.zero_add, UInt64.toNat_ofNat']
    omega
  have hsign : decide (2 ^ (63 : Nat) ≤ fraction) = false := by
    simp only [decide_eq_false_iff_not]
    omega
  have hfield : fraction / 2 ^ (52 : Nat) % 2048 = 0 := by omega
  have hrest : fraction % 2 ^ (52 : Nat) = fraction := by omega
  unfold view
  simp only [hword, hsign, hfield, hrest]
  rfl

/-- A significand is packed with its exponent, if it has all of its bits or the exponent is the
smallest. -/
theorem hasUnits_pack {significand : Nat} {exponent : Int}
    (hbits : significand < 2 ^ (53 : Nat))
    (hnormal : exponent = -1074 ∨ 2 ^ (52 : Nat) ≤ significand) (hfrom : -1074 ≤ exponent)
    (hto : exponent ≤ 971) :
    (pack false significand exponent).HasUnits (significand * 2 ^ (exponent + 1074).toNat) := by
  by_cases hsmall : significand < 2 ^ (52 : Nat)
  · have hexponent : exponent = -1074 := hnormal.resolve_right (Nat.not_le.mpr hsmall)
    rw [pack, if_pos hsmall]
    exact ⟨significand, -1074, view_ofFields_small hsmall, by rw [hexponent]⟩
  · have hlarge : 2 ^ (52 : Nat) ≤ significand := Nat.le_of_not_lt hsmall
    have hfield : (((exponent + 1075).toNat : Nat) : Int) - 1075 = exponent := by omega
    rw [pack, if_neg hsmall, if_neg (by omega)]
    refine ⟨significand, exponent, ?_, rfl⟩
    rw [view_ofFields (by omega) (by omega) (by omega), Nat.add_sub_of_le hlarge, hfield]

/-- The number of smallest units that a quotient is rounded to. -/
def roundedUnits (num den : Nat) : Nat :=
  let exponent := quotientExponent num den
  let (n, d) := scaleDown num den exponent
  roundHalfEven n d * 2 ^ (exponent + 1074).toNat

section Rounded

variable {num den : Nat} (hnum : num ≠ 0) (hden : 0 < den)

include hnum hden

/-- The rounded quotient has 53 bits, unless the exponent is the smallest. -/
theorem roundHalfEven_scaleDown_ge (h : -1074 < quotientExponent num den) :
    2 ^ (52 : Nat) ≤ roundHalfEven (scaleDown num den (quotientExponent num den)).1
      (scaleDown num den (quotientExponent num den)).2 := by
  refine Nat.le_trans ?_ (div_le_roundHalfEven _ _)
  rw [Nat.le_div_iff_mul_le (scaleDown_snd_pos num hden _)]
  exact scaleDown_quotientExponent_ge hnum hden h

/-- A quotient that is not too large is rounded to some of the smallest units. -/
theorem hasUnits_ofQuotient (hsize : (num.log2 : Int) ≤ den.log2 + 1022) :
    (ofQuotient false num den).HasUnits (roundedUnits num den) := by
  have hfrom := le_quotientExponent num den
  have hto : quotientExponent num den ≤ 970 := by
    unfold quotientExponent
    dsimp only
    split <;> omega
  have hbits := scaleDown_quotientExponent_lt num (Nat.ne_of_gt hden)
  have hround := roundHalfEven_le (scaleDown num den (quotientExponent num den)).1
    (scaleDown num den (quotientExponent num den)).2
  have hnormal : quotientExponent num den = -1074 ∨
      2 ^ (52 : Nat) ≤ roundHalfEven (scaleDown num den (quotientExponent num den)).1
        (scaleDown num den (quotientExponent num den)).2 := by
    rcases Int.lt_or_eq_of_le hfrom with hlt | heq
    · exact Or.inr (roundHalfEven_scaleDown_ge hnum hden hlt)
    · exact Or.inl heq.symm
  rw [ofQuotient, if_neg hnum, roundedUnits]
  dsimp only
  generalize quotientExponent num den = exponent at *
  generalize roundHalfEven (scaleDown num den exponent).1 (scaleDown num den exponent).2 =
    significand at *
  by_cases hcarry : significand = 2 ^ (53 : Nat)
  · rw [if_pos hcarry, hcarry]
    have hpow : 2 ^ (53 : Nat) * 2 ^ (exponent + 1074).toNat =
        2 ^ (52 : Nat) * 2 ^ (exponent + 1 + 1074).toNat := by
      rw [pow_units_succ hfrom, two_pow_53]
      ac_rfl
    rw [hpow]
    exact hasUnits_pack (by decide) (Or.inr (Nat.le_refl _)) (by omega) (by omega)
  · rw [if_neg hcarry]
    exact hasUnits_pack (by omega) hnormal hfrom (by omega)

/-- A quotient whose exponent is not the smallest has 53 bits of it, from below. -/
theorem units_ge (h : -1074 < quotientExponent num den) :
    2 ^ (52 : Nat) * den * 2 ^ (quotientExponent num den + 1074).toNat ≤ num * unitsInOne := by
  have hpos := scaleDown_snd_pos num hden (quotientExponent num den)
  have hbits := scaleDown_quotientExponent_ge hnum hden h
  have hscaled := scaleDown_mul num den (le_quotientExponent num den)
  generalize quotientExponent num den = exponent at *
  generalize 2 ^ (exponent + 1074).toNat = units at *
  generalize unitsInOne = inOne at *
  refine Nat.le_of_mul_le_mul_right (c := (scaleDown num den exponent).2) ?_ hpos
  calc 2 ^ (52 : Nat) * den * units * (scaleDown num den exponent).2
      = 2 ^ (52 : Nat) * (scaleDown num den exponent).2 * den * units := by ac_rfl
    _ ≤ (scaleDown num den exponent).1 * den * units :=
      Nat.mul_le_mul_right _ (Nat.mul_le_mul_right _ hbits)
    _ = num * inOne * (scaleDown num den exponent).2 := by
      rw [hscaled]
      ac_rfl

omit hnum in
/-- A quotient has 53 bits of its exponent, from above. -/
theorem units_lt :
    num * unitsInOne < 2 ^ (53 : Nat) * den * 2 ^ (quotientExponent num den + 1074).toNat := by
  have hpos := scaleDown_snd_pos num hden (quotientExponent num den)
  have hbits := scaleDown_quotientExponent_lt num (Nat.ne_of_gt hden)
  rw [Nat.div_lt_iff_lt_mul hpos] at hbits
  have hscaled := scaleDown_mul num den (le_quotientExponent num den)
  have hunits : 0 < den * 2 ^ (quotientExponent num den + 1074).toNat :=
    Nat.mul_pos hden (Nat.two_pow_pos _)
  generalize quotientExponent num den = exponent at *
  generalize 2 ^ (exponent + 1074).toNat = units at *
  generalize unitsInOne = inOne at *
  refine Nat.lt_of_mul_lt_mul_right (a := (scaleDown num den exponent).2) ?_
  calc num * inOne * (scaleDown num den exponent).2
      = (scaleDown num den exponent).1 * (den * units) := by
        rw [← Nat.mul_assoc, hscaled]
        ac_rfl
    _ < 2 ^ (53 : Nat) * (scaleDown num den exponent).2 * (den * units) :=
      Nat.mul_lt_mul_of_pos_right hbits hunits
    _ = 2 ^ (53 : Nat) * den * units * (scaleDown num den exponent).2 := by ac_rfl

end Rounded

/-- A smaller quotient does not have a larger exponent. -/
theorem quotientExponent_mono {num den num' den' : Nat} (hnum : num ≠ 0) (hden : 0 < den)
    (hden' : 0 < den') (h : num * den' ≤ num' * den) :
    quotientExponent num den ≤ quotientExponent num' den' := by
  refine Int.not_lt.mp fun hlt => ?_
  have hfrom' := le_quotientExponent num' den'
  have hge := units_ge hnum hden (by omega)
  have hless : num' * unitsInOne < _ := units_lt hden'
  have hpow : 2 * 2 ^ (quotientExponent num' den' + 1074).toNat ≤
      2 ^ (quotientExponent num den + 1074).toNat := by
    rw [← pow_units_succ hfrom']
    exact Nat.pow_le_pow_right Nat.zero_lt_two (by omega)
  rw [two_pow_53] at hless
  generalize 2 ^ (quotientExponent num' den' + 1074).toNat = units' at *
  generalize 2 ^ (quotientExponent num den + 1074).toNat = units at *
  generalize unitsInOne = inOne at *
  have hcontra : num' * inOne * den < num' * inOne * den :=
    calc num' * inOne * den < 2 * 2 ^ (52 : Nat) * den' * units' * den :=
          Nat.mul_lt_mul_of_pos_right hless hden
      _ = 2 ^ (52 : Nat) * den * den' * (2 * units') := by ac_rfl
      _ ≤ 2 ^ (52 : Nat) * den * den' * units := Nat.mul_le_mul_left _ hpow
      _ = 2 ^ (52 : Nat) * den * units * den' := by ac_rfl
      _ ≤ num * inOne * den' := Nat.mul_le_mul_right _ hge
      _ = num * den' * inOne := by ac_rfl
      _ ≤ num' * den * inOne := Nat.mul_le_mul_right _ h
      _ = num' * inOne * den := by ac_rfl
  exact Nat.lt_irrefl _ hcontra

/-- With one exponent a smaller quotient is left a smaller quotient. -/
theorem scaleDown_mono {num den num' den' : Nat} {exponent : Int} (hden : 0 < den)
    (hden' : 0 < den') (hexponent : -1074 ≤ exponent) (h : num * den' ≤ num' * den) :
    (scaleDown num den exponent).1 * (scaleDown num' den' exponent).2 ≤
      (scaleDown num' den' exponent).1 * (scaleDown num den exponent).2 := by
  have hscaled := scaleDown_mul num den hexponent
  have hscaled' := scaleDown_mul num' den' hexponent
  have hunits : 0 < 2 ^ (exponent + 1074).toNat := Nat.two_pow_pos _
  generalize 2 ^ (exponent + 1074).toNat = units at *
  generalize unitsInOne = inOne at *
  generalize scaleDown num den exponent = scaled at *
  generalize scaleDown num' den' exponent = scaled' at *
  refine Nat.le_of_mul_le_mul_right (c := den * den' * units) ?_
    (Nat.mul_pos (Nat.mul_pos hden hden') hunits)
  calc scaled.1 * scaled'.2 * (den * den' * units)
      = scaled.1 * den * units * (scaled'.2 * den') := by ac_rfl
    _ = num * den' * (scaled.2 * inOne * scaled'.2) := by
      rw [hscaled]
      ac_rfl
    _ ≤ num' * den * (scaled.2 * inOne * scaled'.2) := Nat.mul_le_mul_right _ h
    _ = scaled'.1 * den' * units * (scaled.2 * den) := by
      rw [hscaled']
      ac_rfl
    _ = scaled'.1 * scaled.2 * (den * den' * units) := by ac_rfl

/-- A smaller quotient is not rounded to more. -/
theorem roundedUnits_mono {num den num' den' : Nat} (hnum : num ≠ 0) (hden : 0 < den)
    (hden' : 0 < den') (h : num * den' ≤ num' * den) :
    roundedUnits num den ≤ roundedUnits num' den' := by
  have hnum' : num' ≠ 0 := by
    rintro rfl
    have hpos := Nat.mul_pos (Nat.pos_of_ne_zero hnum) hden'
    omega
  have hexponent := quotientExponent_mono hnum hden hden' h
  have hfrom := le_quotientExponent num den
  unfold roundedUnits
  dsimp only
  rcases Int.lt_or_eq_of_le hexponent with hlt | heq
  · -- The number with the greater exponent has all of its bits.
    have hbits := roundHalfEven_scaleDown_ge hnum' hden' (by omega)
    have hround := roundHalfEven_le (scaleDown num den (quotientExponent num den)).1
      (scaleDown num den (quotientExponent num den)).2
    have hbelow := scaleDown_quotientExponent_lt num (Nat.ne_of_gt hden)
    have hpow : 2 * 2 ^ (quotientExponent num den + 1074).toNat ≤
        2 ^ (quotientExponent num' den' + 1074).toNat := by
      rw [← pow_units_succ hfrom]
      exact Nat.pow_le_pow_right Nat.zero_lt_two (by omega)
    calc roundHalfEven _ _ * 2 ^ (quotientExponent num den + 1074).toNat
        ≤ 2 ^ (53 : Nat) * 2 ^ (quotientExponent num den + 1074).toNat :=
          Nat.mul_le_mul_right _ (by omega)
      _ = 2 ^ (52 : Nat) * (2 * 2 ^ (quotientExponent num den + 1074).toNat) := by
          rw [two_pow_53]
          ac_rfl
      _ ≤ 2 ^ (52 : Nat) * 2 ^ (quotientExponent num' den' + 1074).toNat :=
          Nat.mul_le_mul_left _ hpow
      _ ≤ _ := Nat.mul_le_mul_right _ hbits
  · rw [← heq]
    exact Nat.mul_le_mul_right _ (roundHalfEven_mono (scaleDown_snd_pos num hden _)
      (scaleDown_snd_pos num' hden' _) (scaleDown_mono hden hden' hfrom h))

end Binary64

end PromptMarkup
