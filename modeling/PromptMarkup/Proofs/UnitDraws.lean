import PromptMarkup.Draw.Twister

/-!
# Draws between zero and one

A draw between zero and one picks an item of every list that has one, as long as the
length of the list is in the range of double-precision numbers.  Its share of the length
is a positive number that is rounded once, and the rounding stays below the greatest
number there is.

Main statements:

- {lit}`exists_view_ofQuotient`: a quotient that is not too large is rounded to a finite
  number.
- {lit}`exists_timesFloor`: a share of a length is a natural number.
- {lit}`exists_pick`: a draw between zero and one picks an item, the one at its share of
  the length or the last.
- {lit}`inUnit_next`: the generator draws numbers between zero and one.
-/

namespace PromptMarkup

-- Powers of numbers are those of core, whatever other instances are in scope.
attribute [local instance (5000)] instPowNat

namespace Binary64

/-- A number between zero and one, both included. -/
def InUnit (x : Binary64) : Prop :=
  (zero false).le x = true ∧ x.le one = true

instance (x : Binary64) : Decidable x.InUnit :=
  inferInstanceAs (Decidable (_ ∧ _))

/-! ## Rounding to a finite number -/

/-- Fields that are less than those of an infinity are those of a finite number. -/
theorem exists_view_ofFields {magnitude : Nat} (h : magnitude < 2047 * 2 ^ (52 : Nat)) :
    ∃ significand exponent,
      (ofFields false magnitude).view = .finite false significand exponent := by
  have hword : (ofFields false magnitude).bits.toNat = magnitude := by
    simp only [ofFields, Bool.false_eq_true, if_false, Nat.zero_add, UInt64.toNat_ofNat']
    omega
  have hsign : decide (2 ^ (63 : Nat) ≤ magnitude) = false := by
    simp only [decide_eq_false_iff_not]
    omega
  have hfield : ¬magnitude / 2 ^ (52 : Nat) % 2048 = 2047 := by omega
  unfold view
  simp only [hword, hsign, hfield, if_false]
  split
  · exact ⟨_, _, rfl⟩
  · exact ⟨_, _, rfl⟩

/-- A significand of 53 bits is packed into a finite number while the exponent is in
range. -/
theorem exists_view_pack {significand : Nat} {exponent : Int}
    (hsignificand : significand < 2 ^ (53 : Nat)) (hexponent : exponent ≤ 971) :
    ∃ significand' exponent',
      (pack false significand exponent).view = .finite false significand' exponent' := by
  unfold pack
  split
  · apply exists_view_ofFields
    omega
  · rw [if_neg (Int.not_lt.mpr hexponent)]
    apply exists_view_ofFields
    omega

/-- Rounding a quotient adds one at most. -/
theorem roundHalfEven_le (num den : Nat) : roundHalfEven num den ≤ num / den + 1 := by
  unfold roundHalfEven
  dsimp only
  split
  · omega
  · split
    · omega
    · omega

/-- The bits of a quotient before and after scaling. -/
theorem scaleDown_lt {num den bits : Nat} {exponent : Int} (hden : den ≠ 0)
    (h : (num.log2 : Int) + 1 ≤ den.log2 + exponent + bits) :
    (scaleDown num den exponent).1 < (scaleDown num den exponent).2 * 2 ^ bits := by
  have hnum : num < 2 ^ (num.log2 + 1) := Nat.lt_log2_self
  have hpow : 2 ^ den.log2 ≤ den := Nat.log2_self_le hden
  unfold scaleDown
  split
  · rename_i hexponent
    calc num < 2 ^ (num.log2 + 1) := hnum
      _ ≤ 2 ^ (den.log2 + exponent.toNat + bits) :=
        Nat.pow_le_pow_right Nat.zero_lt_two (by omega)
      _ = 2 ^ den.log2 * 2 ^ exponent.toNat * 2 ^ bits := by rw [Nat.pow_add, Nat.pow_add]
      _ ≤ den * 2 ^ exponent.toNat * 2 ^ bits :=
        Nat.mul_le_mul_right _ (Nat.mul_le_mul_right _ hpow)
  · rename_i hexponent
    calc num * 2 ^ (-exponent).toNat < 2 ^ (num.log2 + 1) * 2 ^ (-exponent).toNat :=
        Nat.mul_lt_mul_of_pos_right hnum (Nat.pow_pos Nat.zero_lt_two)
      _ = 2 ^ (num.log2 + 1 + (-exponent).toNat) := (Nat.pow_add ..).symm
      _ ≤ 2 ^ (den.log2 + bits) := Nat.pow_le_pow_right Nat.zero_lt_two (by omega)
      _ = 2 ^ den.log2 * 2 ^ bits := Nat.pow_add ..
      _ ≤ den * 2 ^ bits := Nat.mul_le_mul_right _ hpow

/-- A quotient has 53 significant bits at most with its exponent. -/
theorem scaleDown_quotientExponent_lt (num : Nat) {den : Nat} (hden : den ≠ 0) :
    (scaleDown num den (quotientExponent num den)).1 /
      (scaleDown num den (quotientExponent num den)).2 < 2 ^ (53 : Nat) := by
  have hscaled : ∀ exponent : Int, (num.log2 : Int) - den.log2 - 52 ≤ exponent →
      (scaleDown num den exponent).1 / (scaleDown num den exponent).2 < 2 ^ (53 : Nat) := by
    intro exponent h
    apply Nat.div_lt_of_lt_mul
    exact scaleDown_lt hden (by omega)
  -- Either the guess has been tried, or the exponent is greater than the guess.
  unfold quotientExponent
  dsimp only
  split
  · rename_i htried
    rcases Int.le_total (-1074) ((num.log2 : Int) - den.log2 - 53) with hle | hle
    · rw [Int.max_eq_left hle]
      exact htried
    · by_cases heq : (num.log2 : Int) - den.log2 - 53 = -1074
      · rw [heq] at htried ⊢
        exact htried
      · rw [Int.max_eq_right hle]
        exact hscaled _ (by omega)
  · exact hscaled _ (by omega)

/-- A quotient that is not too large is rounded to a finite number. -/
theorem exists_view_ofQuotient {num den : Nat} (hden : den ≠ 0)
    (hsize : (num.log2 : Int) ≤ den.log2 + 1022) :
    ∃ significand exponent,
      (ofQuotient false num den).view = .finite false significand exponent := by
  have hexponent : quotientExponent num den ≤ 970 := by
    unfold quotientExponent
    dsimp only
    split <;> omega
  have hbits := scaleDown_quotientExponent_lt num hden
  have hround := roundHalfEven_le (scaleDown num den (quotientExponent num den)).1
    (scaleDown num den (quotientExponent num den)).2
  unfold ofQuotient
  split
  · exact ⟨0, -1074, by decide⟩
  · dsimp only
    split
    · exact exists_view_pack (by decide) (by omega)
    · exact exists_view_pack (by omega) (by omega)

/-! ## Shares of a length -/

/-- What is read from the bits has no exponent below the smallest. -/
theorem exponent_le_of_view {x : Binary64} {negative : Bool} {significand : Nat}
    {exponent : Int} (h : x.view = .finite negative significand exponent) :
    -1074 ≤ exponent := by
  unfold view at h
  dsimp only at h
  split at h
  · split at h <;> cases h
  · split at h
    · cases h
      exact Int.le_refl _
    · cases h
      omega

/-- A number is not above another if it comes to no more of the smallest units. -/
theorem le_of_view {x y : Binary64} {s t : Bool} {m n : Nat} {e f : Int}
    (hx : x.view = .finite s m e) (hy : y.view = .finite t n f) (h : x.le y = true) :
    units s m e ≤ units t n f := by
  simp only [le, lt, hx, hy, Bool.not_eq_true', decide_eq_false_iff_not] at h
  exact Int.not_lt.mp h

/-- The size of a finite number in the smallest units. -/
theorem units_eq (negative : Bool) (significand : Nat) (exponent : Int) :
    units negative significand exponent =
      if negative then -((significand * 2 ^ (exponent + 1074).toNat : Nat) : Int)
      else ((significand * 2 ^ (exponent + 1074).toNat : Nat) : Int) := by
  simp [units]

/-- The number of smallest units that make one. -/
def unitsInOne : Nat :=
  2 ^ (1074 : Nat)

/-- There are units in one. -/
theorem unitsInOne_pos : 0 < unitsInOne := by
  unfold unitsInOne
  exact Nat.two_pow_pos 1074

/-- The units in one are a product of powers of two. -/
theorem unitsInOne_eq {first second : Nat} (h : first + second = 1074) :
    unitsInOne = 2 ^ first * 2 ^ second := by
  rw [← Nat.pow_add, h, unitsInOne]

/-- A number between zero and one is finite and no more than one, and below zero there is
none of it. -/
theorem InUnit.exists_view {x : Binary64} (h : x.InUnit) :
    ∃ negative significand exponent, x.view = .finite negative significand exponent ∧
      (negative = true → significand = 0) ∧
      significand * 2 ^ (exponent + 1074).toNat ≤ unitsInOne := by
  have hzero : (zero false).view = .finite false 0 (-1074) := by decide
  have hone : one.view = .finite false (2 ^ (52 : Nat)) (-52) := by decide
  rcases h with ⟨hfrom, hto⟩
  cases hview : x.view with
  | nan => simp [le, hzero, hview] at hfrom
  | infinite negative => cases negative <;> simp [le, lt, hzero, hone, hview] at hfrom hto
  | finite negative significand exponent =>
    have hfrom := le_of_view hzero hview hfrom
    have hto := le_of_view hview hone hto
    rw [units_eq, units_eq] at hfrom hto
    have hpos : 0 < 2 ^ (exponent + 1074).toNat := Nat.pow_pos Nat.zero_lt_two
    rw [← unitsInOne_eq (by decide)] at hto
    cases negative with
    | true =>
      have hnone : significand * 2 ^ (exponent + 1074).toNat = 0 := by
        simp only [Bool.false_eq_true, if_false, if_true, Nat.zero_mul] at hfrom
        omega
      have hzero : significand = 0 :=
        (Nat.mul_eq_zero.mp hnone).resolve_right (Nat.ne_of_gt hpos)
      exact ⟨true, significand, exponent, rfl, fun _ => hzero, hnone ▸ Nat.zero_le _⟩
    | false =>
      simp only [Bool.false_eq_true, if_false] at hto
      exact ⟨false, significand, exponent, rfl, nofun, Int.ofNat_le.mp hto⟩

/-- What is no more than one, and not below zero, is between zero and one. -/
theorem inUnit_of_view {x : Binary64} {significand : Nat} {exponent : Int}
    (hview : x.view = .finite false significand exponent)
    (h : significand * 2 ^ (exponent + 1074).toNat ≤ unitsInOne) : x.InUnit := by
  have hzero : (zero false).view = .finite false 0 (-1074) := by decide
  have hone : one.view = .finite false (2 ^ (52 : Nat)) (-52) := by decide
  constructor
  · have hfrom : ¬units false significand exponent < units false 0 (-1074) := by
      rw [units_eq, units_eq]
      simp only [Bool.false_eq_true, if_false, Nat.zero_mul]
      omega
    simp [le, lt, hzero, hview, hfrom]
  · have hto : ¬units false (2 ^ (52 : Nat)) (-52) < units false significand exponent := by
      rw [units_eq, units_eq, ← unitsInOne_eq (by decide)]
      simp only [Bool.false_eq_true, if_false]
      omega
    simp only [le, lt, hone, hview, hto, decide_false, Bool.not_false]

/-- Zero is between zero and one. -/
theorem inUnit_zero : (zero false).InUnit := by
  apply inUnit_of_view (by decide : (zero false).view = .finite false 0 (-1074))
  rw [Nat.zero_mul]
  exact Nat.zero_le _

/-- One is between zero and one. -/
theorem inUnit_one : one.InUnit := by
  apply inUnit_of_view (by decide : one.view = .finite false (2 ^ (52 : Nat)) (-52))
  exact Nat.le_of_eq (unitsInOne_eq (by decide)).symm

/-- A number between zero and one, times a count, is a quotient that is no more than the
count. -/
theorem scaleDown_le_of_le_one {significand : Nat} {exponent : Int} (count : Nat)
    (hexponent : -1074 ≤ exponent)
    (h : significand * 2 ^ (exponent + 1074).toNat ≤ unitsInOne) :
    (scaleDown (significand * count) 1 (-exponent)).2 ≠ 0 ∧
      (scaleDown (significand * count) 1 (-exponent)).1 ≤
        count * (scaleDown (significand * count) 1 (-exponent)).2 := by
  unfold scaleDown
  split
  · rename_i hneg
    rw [unitsInOne_eq (by omega : (-exponent).toNat + (exponent + 1074).toNat = 1074)] at h
    have hle : significand ≤ 2 ^ (-exponent).toNat :=
      Nat.le_of_mul_le_mul_right h (Nat.pow_pos Nat.zero_lt_two)
    refine ⟨?_, ?_⟩
    · rw [Nat.one_mul]
      exact Nat.ne_of_gt (Nat.pow_pos Nat.zero_lt_two)
    · rw [Nat.one_mul, Nat.mul_comm significand]
      exact Nat.mul_le_mul_left count hle
  · rename_i hpos
    have hunits : unitsInOne = 2 ^ (1074 : Nat) := by rw [unitsInOne]
    have hsplit : (exponent + 1074).toNat = (- -exponent).toNat + 1074 := by omega
    rw [hsplit, Nat.pow_add, ← hunits, ← Nat.mul_assoc] at h
    have hle : significand * 2 ^ (- -exponent).toNat ≤ 1 := by
      apply Nat.le_of_mul_le_mul_right _ unitsInOne_pos
      rw [Nat.one_mul]
      exact h
    refine ⟨Nat.one_ne_zero, ?_⟩
    rw [Nat.mul_right_comm, Nat.mul_comm]
    exact Nat.mul_le_mul_left count hle

/-- A quotient that is no more than a count has few more bits than the count. -/
theorem log2_le_of_le_mul {num den count : Nat} (h : num ≤ count * den) :
    num.log2 ≤ count.log2 + den.log2 + 1 := by
  by_cases hnum : num = 0
  · simp [hnum]
  · have hcount : count < 2 ^ (count.log2 + 1) := Nat.lt_log2_self
    have hbits : den < 2 ^ (den.log2 + 1) := Nat.lt_log2_self
    apply Nat.le_of_lt_succ
    rw [Nat.log2_lt hnum]
    calc num ≤ count * den := h
      _ < 2 ^ (count.log2 + 1) * 2 ^ (den.log2 + 1) :=
        Nat.mul_lt_mul_of_lt_of_le hcount (Nat.le_of_lt hbits) (Nat.pow_pos Nat.zero_lt_two)
      _ = 2 ^ (count.log2 + 1 + (den.log2 + 1)) := (Nat.pow_add ..).symm
      _ = 2 ^ (count.log2 + den.log2 + 1).succ := by
        congr 1
        omega

/-- Nothing is nothing at every scale. -/
@[simp] theorem scaleDown_zero (den : Nat) (exponent : Int) :
    (scaleDown 0 den exponent).1 = 0 := by
  unfold scaleDown
  split
  · rfl
  · exact Nat.zero_mul _

/-- The share that a number between zero and one has of a length is a natural number. -/
theorem InUnit.exists_timesFloor {x : Binary64} (h : x.InUnit) {count : Nat}
    (hcount : count.log2 ≤ 1021) : ∃ share : Nat, x.timesFloor count = .ok share := by
  rcases h.exists_view with ⟨negative, significand, exponent, hview, hnone, hone⟩
  unfold timesFloor
  rw [hview]
  cases negative with
  | true =>
    -- A zero below zero has a share of zero.
    have hzero : (zero true).view = .finite true 0 (-1074) := by decide
    have hproduct : ∀ den, ofQuotient true 0 den = zero true := fun den => if_pos rfl
    simp only [hnone rfl, Nat.zero_mul, scaleDown_zero, hproduct, hzero]
    refine ⟨0, ?_⟩
    have hfloor : ∀ den, (0 + den - 1) / den = 0 := by
      intro den
      cases den with
      | zero => rfl
      | succ den => exact Nat.div_eq_of_lt (by omega)
    simp only [if_true, hfloor]
    rfl
  | false =>
    rcases scaleDown_le_of_le_one count (exponent_le_of_view hview) hone with ⟨hden, hle⟩
    have hbits := log2_le_of_le_mul hle
    have hsize : ((scaleDown (significand * count) 1 (-exponent)).1.log2 : Int) ≤
        (scaleDown (significand * count) 1 (-exponent)).2.log2 + 1022 := by omega
    rcases exists_view_ofQuotient hden hsize with ⟨significand', exponent', hproduct⟩
    dsimp only
    rw [hproduct]
    exact ⟨_, rfl⟩

end Binary64

/-- A draw between zero and one picks the item at its share of the length of a list, or the
last one where that is less. -/
theorem Binary64.InUnit.exists_pick {α : Type} {draw : Binary64} (h : draw.InUnit)
    {items : List α} (hne : items ≠ []) (hlength : items.length.log2 ≤ 1021) :
    ∃ share : Nat, draw.timesFloor items.length = .ok share ∧
      ∃ item, items[min share (items.length - 1)]? = some item ∧ pick draw items = .ok item := by
  rcases h.exists_timesFloor hlength with ⟨share, hshare⟩
  have hpos : 0 < items.length := List.length_pos_iff.mpr hne
  have hlt : min share (items.length - 1) < items.length := by omega
  have hitem : items[min share (items.length - 1)]? = some items[min share (items.length - 1)] :=
    List.getElem?_eq_getElem hlt
  refine ⟨share, hshare, _, hitem, ?_⟩
  have hindex : pickIndex draw items.length = .ok (min share (items.length - 1)) := by
    rw [pickIndex, hshare]
  rw [pick, hindex]
  simp only [hitem]

/-! ## The draws of the generator -/

namespace Binary64

/-- Fields that are not the least and not the greatest are read back. -/
theorem view_ofFields {field fraction : Nat} (hfrom : 0 < field) (hto : field < 2047)
    (hfraction : fraction < 2 ^ (52 : Nat)) :
    (ofFields false (field * 2 ^ (52 : Nat) + fraction)).view =
      .finite false (2 ^ (52 : Nat) + fraction) ((field : Int) - 1075) := by
  have hword : (ofFields false (field * 2 ^ (52 : Nat) + fraction)).bits.toNat =
      field * 2 ^ (52 : Nat) + fraction := by
    simp only [ofFields, Bool.false_eq_true, if_false, Nat.zero_add, UInt64.toNat_ofNat']
    omega
  have hsign : decide (2 ^ (63 : Nat) ≤ field * 2 ^ (52 : Nat) + fraction) = false := by
    simp only [decide_eq_false_iff_not]
    omega
  have hfield : (field * 2 ^ (52 : Nat) + fraction) / 2 ^ (52 : Nat) % 2048 = field := by omega
  have hrest : (field * 2 ^ (52 : Nat) + fraction) % 2 ^ (52 : Nat) = fraction := by omega
  unfold view
  simp only [hword, hsign, hfield, hrest]
  rw [if_neg (Nat.ne_of_lt hto), if_neg (Nat.ne_of_gt hfrom)]

/-- A quotient without a remainder is not rounded. -/
theorem roundHalfEven_mul (quotient : Nat) {den : Nat} (hden : 0 < den) :
    roundHalfEven (quotient * den) den = quotient := by
  have hless : 2 * (quotient * den % den) < den := by simpa using hden
  rw [roundHalfEven, if_pos hless, Nat.mul_div_cancel _ hden]

/-- The exponent of a positive number of 53 bits over {lit}`2 ^ 53`. -/
theorem quotientExponent_drawSteps {n : Nat} (hpos : n ≠ 0) (hlt : n < Twister.drawSteps) :
    quotientExponent n Twister.drawSteps = (n.log2 : Int) - 105 := by
  have hbits : n.log2 < 53 := (Nat.log2_lt hpos).mpr hlt
  have hden : Twister.drawSteps.log2 = 53 := by decide
  have hscale : scaleDown n Twister.drawSteps ((n.log2 : Int) - 53 - 53) =
      (n * 2 ^ (106 - n.log2), Twister.drawSteps) := by
    have hneg : ¬(0 : Int) ≤ (n.log2 : Int) - 53 - 53 := by omega
    have hsize : (-((n.log2 : Int) - 53 - 53)).toNat = 106 - n.log2 := by omega
    rw [scaleDown, if_neg hneg, hsize]
  have hlarge : ¬n * 2 ^ (106 - n.log2) / Twister.drawSteps < 2 ^ (53 : Nat) := by
    rw [Nat.not_lt, Nat.le_div_iff_mul_le (by decide)]
    calc 2 ^ (53 : Nat) * Twister.drawSteps = 2 ^ (n.log2 + (106 - n.log2)) := by
          rw [Nat.add_sub_of_le (by omega)]
          decide
      _ = 2 ^ n.log2 * 2 ^ (106 - n.log2) := Nat.pow_add ..
      _ ≤ n * 2 ^ (106 - n.log2) := Nat.mul_le_mul_right _ (Nat.log2_self_le hpos)
  have hguess : (n.log2 : Int) - (53 : Nat) - 53 = (n.log2 : Int) - 53 - 53 := rfl
  rw [quotientExponent, hden, hguess]
  dsimp only
  rw [hscale]
  dsimp only
  rw [if_neg hlarge]
  omega

/-- A positive number of 53 bits over {lit}`2 ^ 53` keeps its bits. -/
theorem view_ofQuotient_drawSteps {n : Nat} (hpos : n ≠ 0) (hlt : n < Twister.drawSteps) :
    (ofQuotient false n Twister.drawSteps).view =
      .finite false (n * 2 ^ (52 - n.log2)) ((n.log2 : Int) - 105) := by
  have hbits : n.log2 < 53 := (Nat.log2_lt hpos).mpr hlt
  have hscale : scaleDown n Twister.drawSteps ((n.log2 : Int) - 105) =
      (n * 2 ^ (52 - n.log2) * Twister.drawSteps, Twister.drawSteps) := by
    have hneg : ¬(0 : Int) ≤ (n.log2 : Int) - 105 := by omega
    have hsize : (-((n.log2 : Int) - 105)).toNat = 52 - n.log2 + 53 := by omega
    rw [scaleDown, if_neg hneg, hsize, Nat.pow_add, ← Nat.mul_assoc]
    rfl
  have hfrom : 2 ^ (52 : Nat) ≤ n * 2 ^ (52 - n.log2) := by
    calc 2 ^ (52 : Nat) = 2 ^ n.log2 * 2 ^ (52 - n.log2) := by
          rw [← Nat.pow_add, Nat.add_sub_of_le (by omega)]
      _ ≤ n * 2 ^ (52 - n.log2) := Nat.mul_le_mul_right _ (Nat.log2_self_le hpos)
  have hto : n * 2 ^ (52 - n.log2) < 2 ^ (53 : Nat) := by
    calc n * 2 ^ (52 - n.log2) < 2 ^ (n.log2 + 1) * 2 ^ (52 - n.log2) :=
          Nat.mul_lt_mul_of_pos_right Nat.lt_log2_self (Nat.pow_pos Nat.zero_lt_two)
      _ = 2 ^ (53 : Nat) := by
          rw [← Nat.pow_add]
          congr 1
          omega
  have hfield : ((n.log2 : Int) - 105 + 1075).toNat = n.log2 + 970 := by omega
  have hexponent : ((n.log2 + 970 : Nat) : Int) - 1075 = (n.log2 : Int) - 105 := by omega
  have hround := roundHalfEven_mul (n * 2 ^ (52 - n.log2)) (by decide : 0 < Twister.drawSteps)
  rw [ofQuotient, if_neg hpos, quotientExponent_drawSteps hpos hlt]
  dsimp only
  rw [hscale]
  dsimp only
  rw [hround, if_neg (Nat.ne_of_lt hto), pack, if_neg (Nat.not_lt.mpr hfrom), if_neg (by omega), hfield,
    view_ofFields (by omega) (by omega) (by omega), Nat.add_sub_of_le hfrom, hexponent]

end Binary64

namespace Twister

/-- An integer that is drawn has 53 bits at most. -/
theorem draw53_lt (state : Twister) : state.draw53.1 < drawSteps := by
  have hhigh : ∀ x : UInt32, (x >>> 5).toNat < 2 ^ (27 : Nat) := by
    intro x
    have hx := x.toNat_lt
    rw [UInt32.toNat_shiftRight, Nat.shiftRight_eq_div_pow]
    apply Nat.div_lt_of_lt_mul
    exact hx
  have hlow : ∀ x : UInt32, (x >>> 6).toNat < 2 ^ (26 : Nat) := by
    intro x
    have hx := x.toNat_lt
    rw [UInt32.toNat_shiftRight, Nat.shiftRight_eq_div_pow]
    apply Nat.div_lt_of_lt_mul
    exact hx
  have hjoined : ∀ x y : UInt32, ((x >>> 5).toNat <<< 26) + (y >>> 6).toNat < drawSteps := by
    intro x y
    have hx := hhigh x
    have hy := hlow y
    rw [Nat.shiftLeft_eq, drawSteps]
    omega
  exact hjoined _ _

/-- The generator draws numbers between zero and one. -/
theorem inUnit_next (state : Twister) : (source.next state).1.InUnit := by
  have hdraw := draw53_lt state
  have hnext : (source.next state).1 = .ofQuotient false state.draw53.1 drawSteps := rfl
  rw [hnext]
  by_cases hzero : state.draw53.1 = 0
  · rw [Binary64.ofQuotient, if_pos hzero]
    exact Binary64.inUnit_zero
  · have hsteps : drawSteps = 2 ^ (53 : Nat) := by decide
    apply Binary64.inUnit_of_view (Binary64.view_ofQuotient_drawSteps hzero hdraw)
    generalize state.draw53.1 = n at hdraw hzero
    have hlog : n.log2 < 53 := (Nat.log2_lt hzero).mpr hdraw
    have hsize : ((n.log2 : Int) - 105 + 1074).toNat = n.log2 + 969 := by omega
    have hbits : 52 - n.log2 + (n.log2 + 969) = 1021 := by omega
    calc n * 2 ^ (52 - n.log2) * 2 ^ ((n.log2 : Int) - 105 + 1074).toNat
        = n * 2 ^ (1021 : Nat) := by
          rw [hsize, Nat.mul_assoc, ← Nat.pow_add, hbits]
      _ ≤ drawSteps * 2 ^ (1021 : Nat) := Nat.mul_le_mul_right _ (Nat.le_of_lt hdraw)
      _ = Binary64.unitsInOne := by
          rw [hsteps]
          exact (Binary64.unitsInOne_eq (by decide : 53 + 1021 = 1074)).symm

end Twister

end PromptMarkup
