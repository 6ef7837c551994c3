import Mathlib.Tactic.NormNum
import Mathlib.Tactic.Positivity
import Mathlib.Tactic.Ring
import Dynval.Binary64.Basic

/-!
# Rounding to binary64

Rounding depends only on the ratio that is rounded (`ofUnits_congr`), gives back every number that
needs no rounding (`ofUnits_scaledAbs`), and answers the infinity for everything too large
(`ofUnits_of_le`).
-/

namespace Dynval

/-! ### Division with rounding -/

/-- Rounding does not see a common factor. -/
lemma roundDiv_mul_left {k : Nat} (hk : 0 < k) (num den : Nat) :
    roundDiv (k * num) (k * den) = roundDiv num den := by
  unfold roundDiv
  rw [Nat.mul_div_mul_left _ _ hk, Nat.mul_mod_mul_left, Nat.mul_left_comm 2 k]
  simp only [Nat.mul_lt_mul_left hk, Nat.mul_right_inj hk.ne']

/-- An exact quotient is not rounded. -/
lemma roundDiv_mul_self {den : Nat} (hden : 0 < den) (n : Nat) : roundDiv (n * den) den = n := by
  simp [roundDiv, Nat.mul_div_cancel _ hden, hden.ne]

/-- Rounding never goes below the floor. -/
lemma div_le_roundDiv (num den : Nat) : num / den ≤ roundDiv num den := by
  unfold roundDiv
  dsimp only
  split_ifs <;> omega

namespace Binary64

/-! ### Sign and magnitude -/

lemma magnitude_lt (x : Binary64) : x.magnitude < 2 ^ 63 :=
  Nat.mod_lt _ (by norm_num)

/-- A number is its sign and its magnitude. -/
@[simp] lemma ofMagnitude_magnitude (x : Binary64) :
    ofMagnitude x.isNegative x.magnitude = x := by
  obtain ⟨bits⟩ := x
  have hlt := bits.toNat_lt
  simp only [ofMagnitude, isNegative, magnitude, decide_eq_true_eq, Binary64.mk.injEq]
  rw [← UInt64.toNat_inj, UInt64.toNat_ofNat']
  split_ifs <;> omega

@[simp] lemma magnitude_ofMagnitude (negative : Bool) {m : Nat} (hm : m < 2 ^ 63) :
    (ofMagnitude negative m).magnitude = m := by
  simp only [ofMagnitude, magnitude, UInt64.toNat_ofNat']
  split_ifs <;> omega

@[simp] lemma isNegative_ofMagnitude (negative : Bool) {m : Nat} (hm : m < 2 ^ 63) :
    (ofMagnitude negative m).isNegative = negative := by
  simp only [ofMagnitude, isNegative, UInt64.toNat_ofNat']
  cases negative <;> simp <;> omega

/-- Only the zeros have the absolute value zero. -/
lemma scaledAbs_pos {x : Binary64} (hx : x.isZero = false) : 0 < x.scaledAbs := by
  have hne : x.magnitude ≠ 0 := by simpa [isZero] using hx
  unfold scaledAbs significand
  split_ifs <;> positivity

/-! ### Units -/

lemma unit_pos : 0 < unit := by
  rw [unit]
  generalize 1074 = k
  exact Nat.two_pow_pos k

lemma two_pow_le_unit {e : Nat} (he : e ≤ 1074) : 2 ^ e ≤ unit := by
  rw [unit]
  generalize 1074 = k at he ⊢
  exact Nat.pow_le_pow_right (by norm_num) he

lemma two_pow_add_unit (e : Nat) : 2 ^ (1074 + e) = 2 ^ e * unit := by
  rw [unit]
  generalize 1074 = k
  rw [Nat.pow_add, Nat.mul_comm]

/-- Rounding depends only on the ratio. -/
lemma ofUnits_congr (negative : Bool) {num den num' den' : Nat} (hden : 0 < den)
    (hden' : 0 < den') (h : num * den' = num' * den) :
    ofUnits negative num den = ofUnits negative num' den' := by
  have hscale : ∀ {k num den : Nat}, 0 < k →
      ofUnits negative (k * num) (k * den) = ofUnits negative num den := by
    intro k num den hk
    unfold ofUnits
    dsimp only
    rw [Nat.mul_div_mul_left _ _ hk, Nat.mul_assoc, roundDiv_mul_left hk]
  calc ofUnits negative num den
      = ofUnits negative (den' * num) (den' * den) := (hscale hden').symm
    _ = ofUnits negative (den * num') (den * den') := by
        rw [Nat.mul_comm den' num, h, Nat.mul_comm num' den, Nat.mul_comm den' den]
    _ = ofUnits negative num' den' := hscale hden

/-- A shift adds to the number of bits. -/
lemma log2_mul_two_pow {n k e : Nat} (hle : 2 ^ k ≤ n) (hlt : n < 2 ^ (k + 1)) :
    (n * 2 ^ e).log2 = k + e := by
  have hne : n * 2 ^ e ≠ 0 := by
    have : 0 < n := Nat.lt_of_lt_of_le (by positivity) hle
    positivity
  rw [Nat.log2_eq_iff hne]
  constructor
  · rw [Nat.pow_add]
    exact Nat.mul_le_mul_right _ hle
  · rw [Nat.add_right_comm, Nat.pow_add]
    exact Nat.mul_lt_mul_of_pos_right hlt (by positivity)

/-- A number below infinity needs no rounding. -/
lemma ofUnits_scaledAbs {x : Binary64} (hx : x.isFinite) :
    ofUnits x.isNegative x.scaledAbs 1 = x := by
  have hfinite : x.magnitude < infinityBits := by simpa [isFinite] using hx
  suffices h : (x.scaledAbs.log2 - 52) * 2 ^ 52 +
      roundDiv x.scaledAbs (2 ^ (x.scaledAbs.log2 - 52)) = x.magnitude by
    rw [ofUnits, Nat.div_one, Nat.one_mul, h, Nat.min_eq_left hfinite.le, ofMagnitude_magnitude]
  unfold scaledAbs significand exponent
  by_cases hsub : x.magnitude / 2 ^ 52 = 0
  · -- a subnormal number is its own count of units
    have hlt : x.magnitude < 2 ^ 52 := by omega
    have hlog : x.magnitude.log2 - 52 = 0 := by
      rcases Nat.eq_zero_or_pos x.magnitude with h0 | hpos
      · simp [h0]
      · have := (Nat.log2_lt hpos.ne').2 hlt
        omega
    rw [if_pos hsub, hsub, Nat.zero_sub, Nat.pow_zero, Nat.mul_one, hlog]
    simpa using roundDiv_mul_self Nat.one_pos x.magnitude
  · have hlog : ((x.magnitude % 2 ^ 52 + 2 ^ 52) * 2 ^ (x.magnitude / 2 ^ 52 - 1)).log2 - 52 =
        x.magnitude / 2 ^ 52 - 1 := by
      rw [log2_mul_two_pow (k := 52) (by omega) (by omega), Nat.add_sub_cancel_left]
    rw [if_neg hsub, hlog, roundDiv_mul_self (by positivity)]
    have := Nat.div_add_mod x.magnitude (2 ^ 52)
    obtain ⟨k, hk⟩ := Nat.exists_eq_succ_of_ne_zero hsub
    rw [hk] at this ⊢
    simp only [Nat.succ_eq_add_one, Nat.add_sub_cancel]
    omega

/-- A count of units that no finite number has gives the infinity. -/
lemma ofUnits_of_le (negative : Bool) {num den k : Nat} (hden : 0 < den) (hk : 2098 ≤ k)
    (h : 2 ^ k * den ≤ num) : ofUnits negative num den = infinity negative := by
  have hquot : 2 ^ k ≤ num / den := (Nat.le_div_iff_mul_le hden).2 h
  have hne : num / den ≠ 0 := (Nat.lt_of_lt_of_le (Nat.two_pow_pos k) hquot).ne'
  have hlog : k ≤ (num / den).log2 := (Nat.le_log2 hne).2 hquot
  obtain ⟨shift, hshift⟩ : ∃ shift, (num / den).log2 = 52 + shift :=
    Nat.exists_eq_add_of_le (by omega)
  have hround : 2 ^ 52 ≤ roundDiv num (den * 2 ^ shift) := by
    refine Nat.le_trans ?_ (div_le_roundDiv _ _)
    rw [← Nat.div_div_eq_div_mul, Nat.le_div_iff_mul_le (Nat.two_pow_pos shift), ← Nat.pow_add,
      ← hshift]
    exact Nat.log2_self_le hne
  have hmagnitude : infinityBits ≤ shift * 2 ^ 52 + roundDiv num (den * 2 ^ shift) := by
    have hle : 2046 ≤ shift := by omega
    unfold infinityBits
    omega
  rw [ofUnits, infinity, hshift, Nat.add_sub_cancel_left, Nat.min_eq_right hmagnitude]

end Binary64

end Dynval
