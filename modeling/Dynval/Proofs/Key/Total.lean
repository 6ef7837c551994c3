import Mathlib.Order.WithBot
import Dynval.Proofs.Number.Rational

/-!
# Keys are strictly and totally ordered

Of two keys that differ exactly one is below the other, and "below" is transitive. Keys of different
kinds are ordered by kind, float keys by their bits (`Binary64.BitsBelow`). A float has the more
units the greater its bits below the sign are (`Binary64.scaledAbs_lt_iff`), so bits are ordered as
the numbers that they denote, but for NaNs and for the two zeros. No value has a zero as a float
key, since both zeros become the integer zero.
-/

namespace Dynval

namespace Binary64

variable {x y : Binary64}

/-! ### Magnitudes and units -/

lemma div_eq_exponent_add_one (hexp : x.magnitude / 2 ^ 52 ≠ 0) :
    x.magnitude / 2 ^ 52 = x.exponent + 1 := by
  rw [exponent]
  omega

/-- The exponent bounds the absolute value from above. -/
lemma scaledAbs_lt_two_pow (x : Binary64) : x.scaledAbs < 2 ^ (52 + x.magnitude / 2 ^ 52) := by
  by_cases hexp : x.magnitude / 2 ^ 52 = 0
  · -- a subnormal number is its own count of units
    have hlt : x.magnitude < 2 ^ 52 := by omega
    rw [scaledAbs, significand, if_pos hexp, exponent, hexp]
    simpa using hlt
  · calc x.significand * 2 ^ x.exponent
        < 2 ^ 53 * 2 ^ x.exponent :=
          Nat.mul_lt_mul_of_pos_right x.significand_lt (Nat.two_pow_pos _)
      _ = 2 ^ (52 + x.magnitude / 2 ^ 52) := by
          rw [div_eq_exponent_add_one hexp]
          ring

/-- The leading one bounds the absolute value of a normal number from below. -/
lemma two_pow_le_scaledAbs (hexp : x.magnitude / 2 ^ 52 ≠ 0) :
    2 ^ (51 + x.magnitude / 2 ^ 52) ≤ x.scaledAbs := by
  calc 2 ^ (51 + x.magnitude / 2 ^ 52)
      = 2 ^ 52 * 2 ^ x.exponent := by
        rw [div_eq_exponent_add_one hexp]
        ring
    _ ≤ x.significand * 2 ^ x.exponent := by
        rw [significand, if_neg hexp]
        exact Nat.mul_le_mul_right _ (Nat.le_add_left _ _)

/-- Bits below the sign that stand for less make the absolute value less. -/
lemma scaledAbs_lt_of_magnitude_lt (h : x.magnitude < y.magnitude) :
    x.scaledAbs < y.scaledAbs := by
  rcases Nat.lt_or_eq_of_le (Nat.div_le_div_right (c := 2 ^ 52) h.le) with hlt | heq
  · calc x.scaledAbs
        < 2 ^ (52 + x.magnitude / 2 ^ 52) := x.scaledAbs_lt_two_pow
      _ ≤ 2 ^ (51 + y.magnitude / 2 ^ 52) := Nat.pow_le_pow_right Nat.two_pos (by omega)
      _ ≤ y.scaledAbs := two_pow_le_scaledAbs (by omega)
  · have hsignificand : x.significand < y.significand := by
      rw [significand, significand, heq]
      split_ifs <;> omega
    rw [scaledAbs, scaledAbs, exponent, exponent, heq]
    exact Nat.mul_lt_mul_of_pos_right hsignificand (Nat.two_pow_pos _)

lemma scaledAbs_congr (h : x.magnitude = y.magnitude) : x.scaledAbs = y.scaledAbs := by
  rw [scaledAbs, scaledAbs, significand, significand, exponent, exponent, h]

/-- The absolute value grows with the bits below the sign. -/
lemma scaledAbs_lt_iff : x.scaledAbs < y.scaledAbs ↔ x.magnitude < y.magnitude := by
  refine ⟨fun h => ?_, scaledAbs_lt_of_magnitude_lt⟩
  by_contra! hle
  rcases Nat.lt_or_eq_of_le hle with hlt | heq
  · exact absurd h (scaledAbs_lt_of_magnitude_lt hlt).not_gt
  · exact absurd h (scaledAbs_congr heq).le.not_gt

lemma scaled_of_isZero (h : x.isZero) : x.isNaN = false ∧ x.scaled = 0 := by
  have hmagnitude : x.magnitude = 0 := by simpa [isZero] using h
  constructor
  · rw [isNaN, hmagnitude]
    rfl
  · simp [scaled, scaledAbs, significand, hmagnitude]

/-! ### The order of bits -/

/-- The total order of bit patterns: negative ones come before positive ones, positive ones by their
bits below the sign, and negative ones against these. -/
inductive BitsBelow (x y : Binary64) : Prop where
  | signs (hx : x.isNegative) (hy : ¬ y.isNegative)
  | positive (hx : ¬ x.isNegative) (hy : ¬ y.isNegative) (h : x.magnitude < y.magnitude)
  | negative (hx : x.isNegative) (hy : y.isNegative) (h : y.magnitude < x.magnitude)

/-- Comparing the places of bit patterns is their total order. -/
lemma totalCompare_eq_lt_iff : x.totalCompare y = .lt ↔ BitsBelow x y := by
  rw [totalCompare, compare_lt_iff_lt, totalKey, totalKey]
  constructor
  · intro h
    split_ifs at h with hx hy hy
    · exact .negative hx hy (by omega)
    · exact .signs hx hy
    · omega
    · exact .positive hx hy (by omega)
  · rintro (⟨hx, hy⟩ | ⟨hx, hy, h⟩ | ⟨hx, hy, h⟩)
    · rw [if_pos hx, if_neg hy]
      omega
    · rw [if_neg hx, if_neg hy]
      omega
    · rw [if_pos hx, if_pos hy]
      omega

/-- Bits are ordered as the units are, unless both are those of a zero. -/
lemma totalCompare_eq_compare_scaled (h : x.isZero = false ∨ y.isZero = false) :
    x.totalCompare y = compare x.scaled y.scaled := by
  have hxy := @scaledAbs_lt_iff x y
  have hyx := @scaledAbs_lt_iff y x
  have hpos : 0 < x.scaledAbs ∨ 0 < y.scaledAbs := h.imp scaledAbs_pos scaledAbs_pos
  have hlt : x.totalKey < y.totalKey ↔ x.scaled < y.scaled := by
    unfold totalKey scaled
    split_ifs <;> omega
  have hgt : y.totalKey < x.totalKey ↔ y.scaled < x.scaled := by
    unfold totalKey scaled
    split_ifs <;> omega
  simp only [totalCompare, Int.compare_eq_ite_lt, hlt, hgt]

/-! ### The numbers that floats denote -/

/-- The number that a float denotes, with the infinities as the two ends. A NaN denotes no number,
and what stands for it here has no meaning. -/
def toExtended (x : Binary64) : WithBot (WithTop ℚ) :=
  if x.isInfinite then if x.isNegative then ⊥ else ⊤ else (x.toRat : WithTop ℚ)

/-- A number that is no NaN is an infinity or finite. -/
lemma eq_infinity_or_isFinite (hx : x.isNaN = false) :
    x = infinity true ∨ x = infinity false ∨ x.isFinite := by
  have hle : x.magnitude ≤ infinityBits := by simpa [isNaN] using hx
  rcases Nat.lt_or_eq_of_le hle with hlt | heq
  · exact Or.inr (Or.inr (decide_eq_true hlt))
  · have hinf : x = infinity x.isNegative := by rw [infinity, ← heq, ofMagnitude_magnitude]
    cases hsign : x.isNegative with
    | true => exact Or.inl (hsign ▸ hinf)
    | false => exact Or.inr (Or.inl (hsign ▸ hinf))

lemma magnitude_infinity (negative : Bool) : (infinity negative).magnitude = infinityBits :=
  magnitude_ofMagnitude negative (by decide)

lemma isNegative_infinity (negative : Bool) : (infinity negative).isNegative = negative :=
  isNegative_ofMagnitude negative (by decide)

lemma toExtended_of_isFinite (hx : x.isFinite) : x.toExtended = (x.toRat : WithTop ℚ) := by
  have hlt : x.magnitude < infinityBits := by simpa [isFinite] using hx
  rw [toExtended, isInfinite, beq_eq_false_iff_ne.2 hlt.ne, if_neg Bool.false_ne_true]

/-- Every finite number lies strictly between the infinities. -/
lemma scaled_between_infinities (hx : x.isFinite) :
    (infinity true).scaled < x.scaled ∧ x.scaled < (infinity false).scaled := by
  have habs (negative : Bool) : x.scaledAbs < (infinity negative).scaledAbs := by
    rw [scaledAbs_lt_iff, magnitude_infinity]
    simpa [isFinite] using hx
  have hlo := habs true
  have hhi := habs false
  simp only [scaled, isNegative_infinity, if_true, Bool.false_eq_true, if_false]
  split_ifs <;> omega

lemma toExtended_between_infinities (hx : x.isFinite) :
    (infinity true).toExtended < x.toExtended ∧ x.toExtended < (infinity false).toExtended := by
  rw [toExtended_of_isFinite hx]
  constructor
  · exact WithBot.bot_lt_coe _
  · exact WithBot.coe_lt_coe.2 (WithTop.coe_lt_top _)

/-- Finite numbers are ordered as their counts of units. -/
lemma toRat_lt_iff : x.toRat < y.toRat ↔ x.scaled < y.scaled := by
  have hunit : (0 : ℚ) < unit := by exact_mod_cast unit_pos
  rw [← mul_lt_mul_iff_left₀ hunit, toRat_mul_unit, toRat_mul_unit, Int.cast_lt]

/-- Floats that are no NaNs are ordered as their units are. -/
lemma toExtended_lt_iff (hx : x.isNaN = false) (hy : y.isNaN = false) :
    x.toExtended < y.toExtended ↔ x.scaled < y.scaled := by
  have hends := toExtended_between_infinities (x := zero) rfl
  have hends' := scaled_between_infinities (x := zero) rfl
  have hlt := hends.1.trans hends.2
  have hlt' := hends'.1.trans hends'.2
  obtain rfl | rfl | hx := eq_infinity_or_isFinite hx <;>
    obtain rfl | rfl | hy := eq_infinity_or_isFinite hy
  · exact iff_of_false (lt_irrefl _) (lt_irrefl _)
  · exact iff_of_true hlt hlt'
  · exact iff_of_true (toExtended_between_infinities hy).1 (scaled_between_infinities hy).1
  · exact iff_of_false hlt.not_gt hlt'.not_gt
  · exact iff_of_false (lt_irrefl _) (lt_irrefl _)
  · exact iff_of_false (toExtended_between_infinities hy).2.not_gt
      (scaled_between_infinities hy).2.not_gt
  · exact iff_of_false (toExtended_between_infinities hx).1.not_gt
      (scaled_between_infinities hx).1.not_gt
  · exact iff_of_true (toExtended_between_infinities hx).2 (scaled_between_infinities hx).2
  · rw [toExtended_of_isFinite hx, toExtended_of_isFinite hy, WithBot.coe_lt_coe,
      WithTop.coe_lt_coe, toRat_lt_iff]

/-- The order of numbers with the infinities as ends is that of their counts of units. -/
lemma cmp_toExtended (hx : x.isNaN = false) (hy : y.isNaN = false) :
    cmp x.toExtended y.toExtended = compare x.scaled y.scaled := by
  simp only [cmp, cmpUsing, toExtended_lt_iff hx hy, toExtended_lt_iff hy hx,
    Int.compare_eq_ite_lt]

end Binary64

namespace Key

variable {k l : Key}

/-- Of two keys the first is below the second, or they are one key, or the second is below the
first, and no two of these hold. -/
lemma below_or_eq_or_above (k l : Key) :
    k.compare l = .lt ∧ k ≠ l ∧ l.compare k ≠ .lt ∨
    k.compare l ≠ .lt ∧ k = l ∧ l.compare k ≠ .lt ∨
    k.compare l ≠ .lt ∧ k ≠ l ∧ l.compare k = .lt := by
  have heq : k = l ↔ k.compare l = .eq := Std.LawfulEqCmp.compare_eq_iff_eq.symm
  have hswap : l.compare k = (k.compare l).swap := Std.OrientedCmp.eq_swap
  rw [ne_eq, heq, hswap]
  cases k.compare l <;> simp

/-- Keys of different kinds are ordered by kind. -/
lemma compare_of_rank_lt (h : k.rank < l.rank) : k.compare l = .lt := by
  unfold compare
  split
  case h_5 => exact Nat.compare_eq_lt.2 h
  all_goals exact absurd h (Nat.lt_irrefl _)

/-- No value has a zero as a float key: both zeros become the integer zero. -/
lemma isZero_of_ofValue? {v : Value} {x : Binary64} (h : ofValue? v = some (.float x)) :
    x.isZero = false := by
  obtain rfl := eq_float_of_ofValue? h
  refine Bool.eq_false_iff.2 fun hzero => ?_
  obtain ⟨hnan, hscaled⟩ := Binary64.scaled_of_isZero hzero
  have hunits : (Number.float x).units? = (Number.int 0).units? := by
    rw [Number.units?, Number.units?, hnan, hscaled, Int64.toInt_zero, Int.zero_mul]
    rfl
  rw [ofValue?, integral?_eq_some_iff.2 hunits] at h
  cases h

/-- A float key that some value has is ordered to the other floats as their numbers are. -/
lemma compare_float_eq_cmp {v : Value} {x y : Binary64} (h : ofValue? v = some (.float x))
    (hx : x.isNaN = false) (hy : y.isNaN = false) :
    (Key.float x).compare (.float y) = cmp x.toExtended y.toExtended := by
  rw [Binary64.cmp_toExtended hx hy]
  exact Binary64.totalCompare_eq_compare_scaled (.inl (isZero_of_ofValue? h))

/-- The order of keys is a strict total order. Of two keys the first is below the second, or they
are one key, or the second is below the first, and no two of these hold; two keys compare as equal
exactly when they are one key, and "below" is transitive. Keys of different kinds are ordered by
kind, and float keys by the total order of their bits, which orders those that are keys of values
and no NaNs as the numbers that they denote. -/
theorem order_strict_total_and_numeric :
    (∀ k l : Key,
      k.compare l = .lt ∧ k ≠ l ∧ l.compare k ≠ .lt ∨
      k.compare l ≠ .lt ∧ k = l ∧ l.compare k ≠ .lt ∨
      k.compare l ≠ .lt ∧ k ≠ l ∧ l.compare k = .lt) ∧
    (∀ k l : Key, k.compare l = .eq ↔ k = l) ∧
    (∀ k l m : Key, k.compare l = .lt → l.compare m = .lt → k.compare m = .lt) ∧
    (∀ k l : Key, k.rank < l.rank → k.compare l = .lt) ∧
    (∀ x y, (Key.float x).compare (.float y) = .lt ↔ x.BitsBelow y) ∧
    (∀ a b x y, ofValue a = .ok (.float x) → ofValue b = .ok (.float y) →
      x.isNaN = false → y.isNaN = false →
      (Key.float x).compare (.float y) = cmp x.toExtended y.toExtended) := by
  refine ⟨below_or_eq_or_above, fun k l => Std.LawfulEqCmp.compare_eq_iff_eq,
    fun k l m => Std.TransCmp.lt_trans, fun k l => compare_of_rank_lt,
    fun x y => Binary64.totalCompare_eq_lt_iff, fun a b x y ha _ => ?_⟩
  exact compare_float_eq_cmp (ofValue_eq_ok_iff.1 ha)

/-- Two negative fractions are keys in the order of the numbers, against that of their bits below
the sign, and an integer key comes before them. -/
theorem negative_fractions_above_integer_key :
    let x : Binary64 := ⟨0xc004000000000000⟩
    let y : Binary64 := ⟨0xbff8000000000000⟩
    ofValue (.float x) = .ok (.float x) ∧ ofValue (.float y) = .ok (.float y) ∧
      x.isNaN = false ∧ y.isNaN = false ∧ x.toRat = -5 / 2 ∧ y.toRat = -3 / 2 ∧
      (Key.float x).compare (.float y) = .lt ∧ (Key.int 7).compare (.float y) = .lt := by
  intro x y
  obtain ⟨-, -, htrans, hrank, -, hnumeric⟩ := order_strict_total_and_numeric
  have hx : ofValue (.float x) = .ok (.float x) := ofValue_eq_ok_iff.2 (by decide +kernel)
  have hy : ofValue (.float y) = .ok (.float y) := ofValue_eq_ok_iff.2 (by decide +kernel)
  have hxnan : x.isNaN = false := by decide
  have hynan : y.isNaN = false := by decide
  have hxrat : x.toRat = -5 / 2 := by
    have hbits : (13836183955189006336 : UInt64).toNat = 13836183955189006336 := rfl
    norm_num [x, Binary64.toRat, Binary64.toRatAbs, Binary64.magnitude, Binary64.isNegative, hbits]
  have hyrat : y.toRat = -3 / 2 := by
    have hbits : (13832806255468478464 : UInt64).toNat = 13832806255468478464 := rfl
    norm_num [y, Binary64.toRat, Binary64.toRatAbs, Binary64.magnitude, Binary64.isNegative, hbits]
  have hbelow : (Key.float x).compare (.float y) = .lt := by
    rw [hnumeric _ _ x y hx hy hxnan hynan, cmp_eq_lt_iff,
      Binary64.toExtended_of_isFinite (by decide), Binary64.toExtended_of_isFinite (by decide),
      WithBot.coe_lt_coe, WithTop.coe_lt_coe, hxrat, hyrat]
    norm_num
  refine ⟨hx, hy, hxnan, hynan, hxrat, hyrat, hbelow, ?_⟩
  exact htrans _ _ _ (hrank (.int 7) (.float x) (by decide)) hbelow

end Key

end Dynval
