import Mathlib.Tactic.Linarith
import Dynval.Number.Basic
import Dynval.Proofs.Binary64.Round

/-!
# Numbers are compared exactly

Every number that is no NaN is a whole count of units of the least positive number. `compare?`
orders numbers of both kinds by these counts, although an integer is compared with a float by the
whole part of the float and only then by its fraction.
-/

namespace Dynval

namespace Binary64

/-! ### Truncation -/

/-- Clearing bits below the leading one of a normal number leaves its exponent. -/
lemma scaledAbs_clear {x y : Binary64} {k : Nat} (hk : k ≤ 52) (hx : x.magnitude / 2 ^ 52 ≠ 0)
    (hy : y.magnitude = x.magnitude - x.magnitude % 2 ^ k) :
    y.scaledAbs = x.significand / 2 ^ k * 2 ^ k * 2 ^ x.exponent := by
  obtain ⟨j, hj⟩ := Nat.exists_eq_add_of_le hk
  have hpow : 2 ^ 52 = 2 ^ k * 2 ^ j := by rw [← Nat.pow_add, ← hj]
  have hmod : x.magnitude % 2 ^ k = x.magnitude % 2 ^ 52 % 2 ^ k := by
    rw [hpow, Nat.mod_mul_right_mod]
  have hsig : x.significand % 2 ^ k = x.magnitude % 2 ^ 52 % 2 ^ k := by
    rw [significand, if_neg hx, hpow, Nat.add_mul_mod_self_left]
  have hle : x.magnitude % 2 ^ 52 % 2 ^ k ≤ x.magnitude % 2 ^ 52 := Nat.mod_le _ _
  have hdiv : y.magnitude / 2 ^ 52 = x.magnitude / 2 ^ 52 := by
    rw [hy, hmod]
    omega
  have hrem : y.magnitude % 2 ^ 52 = x.magnitude % 2 ^ 52 - x.magnitude % 2 ^ 52 % 2 ^ k := by
    rw [hy, hmod]
    omega
  have hsplit := Nat.div_add_mod x.significand (2 ^ k)
  have hy' : y.significand = x.significand / 2 ^ k * 2 ^ k := by
    have hsig' : x.significand = x.magnitude % 2 ^ 52 + 2 ^ 52 := if_neg hx
    rw [significand, if_neg (hdiv ▸ hx), hrem, Nat.mul_comm]
    omega
  rw [scaledAbs, exponent, hdiv, hy', exponent]

/-- A significand has at most 53 bits. -/
lemma significand_lt (x : Binary64) : x.significand < 2 ^ 53 := by
  unfold significand
  split_ifs <;> omega

lemma isNegative_trunc (x : Binary64) : x.trunc.isNegative = x.isNegative := by
  have hlt := magnitude_lt x
  refine isNegative_ofMagnitude _ ?_
  split_ifs <;> omega

/-- Truncation clears the bits below the point, all of them for a number below one. -/
lemma magnitude_trunc (x : Binary64) : x.trunc.magnitude =
    if 52 < 1075 - x.magnitude / 2 ^ 52 then 0
    else x.magnitude - x.magnitude % 2 ^ (1075 - x.magnitude / 2 ^ 52) := by
  have hlt := magnitude_lt x
  refine magnitude_ofMagnitude _ ?_
  split_ifs <;> omega

/-- Truncation leaves the whole units of one. -/
lemma scaledAbs_trunc (x : Binary64) : x.trunc.scaledAbs = x.scaledAbs / unit * unit := by
  have hmagnitude := magnitude_trunc x
  split_ifs at hmagnitude with hbelow
  · -- every bit is below the point
    have hexp : x.exponent ≤ 1021 := by
      unfold exponent
      omega
    have hlt : x.scaledAbs < unit := by
      calc x.significand * 2 ^ x.exponent
          < 2 ^ 53 * 2 ^ x.exponent :=
            Nat.mul_lt_mul_of_pos_right x.significand_lt (Nat.two_pow_pos _)
        _ = 2 ^ (53 + x.exponent) := (Nat.pow_add _ _ _).symm
        _ ≤ unit := two_pow_le_unit (by omega)
    rw [Nat.div_eq_of_lt hlt, Nat.zero_mul]
    simp [scaledAbs, significand, hmagnitude]
  · have hnormal : x.magnitude / 2 ^ 52 ≠ 0 := by omega
    rw [scaledAbs_clear (by omega) hnormal hmagnitude]
    generalize hk : 1075 - x.magnitude / 2 ^ 52 = k
    rcases Nat.eq_zero_or_pos k with rfl | hpos
    · -- no bit is below the point
      have hexp : 1074 ≤ x.exponent := by
        unfold exponent
        omega
      obtain ⟨e, he⟩ := Nat.exists_eq_add_of_le hexp
      have hunits : x.scaledAbs = x.significand * 2 ^ e * unit := by
        rw [scaledAbs, he, two_pow_add_unit, Nat.mul_assoc]
      rw [hunits, Nat.mul_div_cancel _ unit_pos, ← hunits, scaledAbs, Nat.pow_zero, Nat.div_one,
        Nat.mul_one]
    · have hexp : 1074 = k + x.exponent := by
        unfold exponent
        omega
      have hunit : unit = 2 ^ k * 2 ^ x.exponent := by
        rw [unit, ← Nat.pow_add, ← hexp]
      rw [scaledAbs, hunit, Nat.mul_div_mul_right _ _ (Nat.two_pow_pos _), Nat.mul_assoc]

/-- The whole part of a number has no fraction. -/
lemma scaled_trunc (x : Binary64) : x.trunc.scaled = x.truncInt * unit := by
  unfold truncInt scaled
  rw [isNegative_trunc, scaledAbs_trunc]
  split_ifs
  · rw [Int.neg_tdiv, ← Int.ofNat_tdiv, Nat.cast_mul, Int.neg_mul]
  · rw [← Int.ofNat_tdiv, Nat.cast_mul]

/-- Truncating twice is truncating once. -/
lemma truncInt_trunc (x : Binary64) : x.trunc.truncInt = x.truncInt := by
  rw [truncInt, scaled_trunc, Int.mul_tdiv_cancel _ (by exact_mod_cast unit_pos.ne')]

lemma isNaN_trunc {x : Binary64} (hx : x.isNaN = false) : x.trunc.isNaN = false := by
  simp only [isNaN, decide_eq_false_iff_not, not_lt] at hx ⊢
  refine Nat.le_trans ?_ hx
  rw [magnitude_trunc]
  split_ifs <;> omega

/-! ### Integers and numbers -/

/-- Without NaNs, being less is having the smaller count of units. -/
lemma isLess_iff {x y : Binary64} (hx : x.isNaN = false) (hy : y.isNaN = false) :
    x.isLess y ↔ x.scaled < y.scaled := by
  simp [isLess, compare?, hx, hy, compare_lt_iff_lt]

/-- The bound of the integers is `2 ^ 63`. -/
lemma scaled_int64Bound : int64Bound.scaled = 2 ^ 63 * unit := by
  decide +kernel

lemma scaled_neg_int64Bound : int64Bound.neg.scaled = -(2 ^ 63 * unit) := by
  decide +kernel

/-- Within the range nothing is moved. -/
lemma toInt_saturate {i : Int} (hlo : -2 ^ 63 ≤ i) (hhi : i < 2 ^ 63) : (saturate i).toInt = i := by
  have hmin : Int64.minValue.toInt = -2 ^ 63 := rfl
  have hmax : Int64.maxValue.toInt = 2 ^ 63 - 1 := rfl
  rw [saturate, hmin, hmax, min_eq_right (by omega), max_eq_right hlo]
  exact Int64.toInt_ofInt_of_le hlo hhi

/-- The whole part of a number in the range of the integers is an integer. -/
lemma toInt_toInt64_trunc {x : Binary64} (hx : x.isNaN = false) (hlo : -(2 ^ 63 * unit) ≤ x.scaled)
    (hhi : x.scaled < 2 ^ 63 * unit) : x.trunc.toInt64.toInt = x.truncInt := by
  have hunit : (0 : Int) < unit := by exact_mod_cast unit_pos
  rw [toInt64, isNaN_trunc hx, if_neg Bool.false_ne_true, truncInt_trunc, truncInt]
  generalize x.scaled = z at hlo hhi
  have hsplit := Int.tdiv_mul_add_tmod z unit
  refine toInt_saturate ?_ ?_
  · by_contra! hlt
    have hstep : z.tdiv unit * unit ≤ (-2 ^ 63 - 1) * unit := by
      gcongr
      omega
    linarith [Int.tmod_lt_of_pos z hunit]
  · by_contra! hge
    have hstep : (2 ^ 63 * unit : Int) ≤ z.tdiv unit * unit := by gcongr
    have hrem : 0 ≤ z.tmod unit := by
      refine Int.tmod_nonneg _ ?_
      linarith [Int.lt_tmod_of_pos z hunit]
    linarith

/-- Comparing whole parts and then the fraction is comparing. -/
lemma compare_tdiv (i z : Int) {u : Int} (hu : 0 < u) :
    (compare i (z.tdiv u)).then (compare (z.tdiv u * u) z) = compare (i * u) z := by
  have hsplit := Int.tdiv_mul_add_tmod z u
  have hlo := Int.lt_tmod_of_pos z hu
  have hhi := Int.tmod_lt_of_pos z hu
  rcases lt_trichotomy i (z.tdiv u) with hlt | rfl | hgt
  · have hstep : i * u ≤ (z.tdiv u - 1) * u := by gcongr; omega
    have hbelow : i * u < z := by linarith
    rw [compare_lt_iff_lt.2 hlt, compare_lt_iff_lt.2 hbelow]
    rfl
  · rw [compare_eq_iff_eq.2 rfl]
    rfl
  · have hstep : (z.tdiv u + 1) * u ≤ i * u := by gcongr; omega
    have habove : z < i * u := by linarith
    rw [compare_gt_iff_gt.2 hgt, compare_gt_iff_gt.2 habove]
    rfl

/-- An integer and a number are compared by their units. -/
lemma compareInt?_eq (x : Binary64) (i : Int64) :
    x.compareInt? i = if x.isNaN then none else some (compare (i.toInt * unit) x.scaled) := by
  have hunit : (0 : Int) < unit := by exact_mod_cast unit_pos
  cases hnan : x.isNaN with
  | true => simp [compareInt?, hnan]
  | false =>
    have hmin : -2 ^ 63 ≤ i.toInt := i.le_toInt
    have hmax : i.toInt < 2 ^ 63 := i.toInt_lt
    have hhigh := isLess_iff hnan (y := int64Bound) (by decide)
    have hlow := isLess_iff hnan (y := int64Bound.neg) (by decide)
    rw [scaled_int64Bound] at hhigh
    rw [scaled_neg_int64Bound] at hlow
    simp only [compareInt?, hnan, Bool.false_eq_true, if_false, Bool.not_eq_true']
    split_ifs with hge hlt
    · have hle : (2 ^ 63 * unit : Int) ≤ x.scaled :=
        not_lt.1 (mt hhigh.2 (by rw [hge]; exact Bool.false_ne_true))
      have hbelow : i.toInt * unit < x.scaled := by nlinarith
      rw [compare_lt_iff_lt.2 hbelow]
    · have habove : x.scaled < i.toInt * unit := by nlinarith [hlow.1 hlt]
      rw [compare_gt_iff_gt.2 habove]
    · have hhi : x.scaled < 2 ^ 63 * unit := hhigh.1 (Bool.eq_true_of_not_eq_false hge)
      have hlo : -(2 ^ 63 * unit) ≤ x.scaled := not_lt.1 (mt hlow.2 hlt)
      have hwhole : (x.trunc.compare? x).getD .eq = compare (x.truncInt * unit) x.scaled := by
        rw [compare?, isNaN_trunc hnan, hnan, scaled_trunc]
        rfl
      rw [toInt_toInt64_trunc hnan hlo hhi, hwhole, truncInt, compare_tdiv _ _ hunit]

end Binary64

/-! ### Numbers of both kinds -/

/-- The order of two counts of units, if both are there. -/
def compareUnits : Option Int → Option Int → Option Ordering
  | some m, some n => some (compare m n)
  | _, _ => none

/-- The number in units of the least positive number; nothing for a NaN. -/
def Number.units? : Number → Option Int
  | .int i => some (i.toInt * Binary64.unit)
  | .float x => if x.isNaN then none else some x.scaled

/-- A positive factor keeps the order. -/
lemma compare_mul_right (i j : Int) {u : Int} (hu : 0 < u) :
    compare (i * u) (j * u) = compare i j := by
  rcases lt_trichotomy i j with hlt | rfl | hgt
  · rw [compare_lt_iff_lt.2 hlt, compare_lt_iff_lt.2 (Int.mul_lt_mul_of_pos_right hlt hu)]
  · rw [compare_eq_iff_eq.2 rfl, compare_eq_iff_eq.2 rfl]
  · rw [compare_gt_iff_gt.2 hgt, compare_gt_iff_gt.2 (Int.mul_lt_mul_of_pos_right hgt hu)]

/-- Numbers are compared by their units, exactly and across kinds. -/
lemma Number.compare?_eq (x y : Number) : x.compare? y = compareUnits x.units? y.units? := by
  have hunit : (0 : Int) < Binary64.unit := by exact_mod_cast Binary64.unit_pos
  cases x with
  | int i =>
    cases y with
    | int j => exact congrArg some (compare_mul_right _ _ hunit).symm
    | float y =>
      rw [compare?, Binary64.compareInt?_eq, units?, units?]
      split_ifs <;> rfl
  | float x =>
    cases y with
    | int j =>
      rw [compare?, Binary64.compareInt?_eq, units?, units?]
      split_ifs
      · rfl
      · exact congrArg some (Int.compare_swap _ _)
    | float y =>
      rw [compare?, Binary64.compare?, units?, units?]
      cases x.isNaN <;> cases y.isNaN <;> rfl

end Dynval
