import Mathlib.Algebra.Order.Field.Power
import Mathlib.Data.Rat.Cast.Order
import Mathlib.Tactic.Linarith
import Dynval.Decimal.Basic
import Dynval.Proofs.Binary64.Round

/-!
# The value of decimals

A decimal denotes a rational number, and the binary64 number nearest to it depends on nothing else
(`toBinary64_eq_of_value_eq`). The shortest decimal of a number reads back as the number
(`toBinary64_shortest`), so no two numbers have one shortest decimal.
-/

namespace Dynval

namespace Decimal

variable {d e : Decimal}

/-- The rational number that a decimal denotes. -/
def value (d : Decimal) : ℚ :=
  d.digits * 10 ^ d.exponent

/-! ### The nearest binary64 number -/

/-- The value as a ratio of natural numbers. -/
lemma value_eq_div (d : Decimal) :
    d.value = (d.digits * 10 ^ d.exponent.toNat : ℕ) / (10 ^ (-d.exponent).toNat : ℕ) := by
  have hpow : (10 : ℚ) ^ d.exponent * 10 ^ (-d.exponent).toNat = 10 ^ d.exponent.toNat := by
    rw [← zpow_natCast, ← zpow_natCast, ← zpow_add₀ (by norm_num)]
    congr 1
    omega
  rw [eq_div_iff (by positivity), value]
  push_cast
  rw [mul_assoc, hpow]

lemma two_pow_le_ten_pow (n : ℕ) : 2 ^ (3 * n) ≤ 10 ^ n := by
  rw [pow_mul]
  exact Nat.pow_le_pow_left (by norm_num) n

lemma ten_pow_le_five_pow (n : ℕ) : 10 ^ (2 * n) ≤ 5 ^ (3 * n) := by
  rw [pow_mul, pow_mul]
  exact Nat.pow_le_pow_left (by norm_num) n

lemma ten_pow_eq (n : ℕ) : 10 ^ n = 5 ^ n * 2 ^ n :=
  mul_pow 5 2 n

/-- A decimal of more than four hundred places is beyond every number. -/
lemma ofUnits_ten_pow {n e : ℕ} (hn : 0 < n) (he : 400 < e) :
    Binary64.ofUnits false (n * 10 ^ e * Binary64.unit) 1 = Binary64.infinity false := by
  refine Binary64.ofUnits_of_le false (k := 1074 + 3 * e) Nat.one_pos (by omega) ?_
  rw [Nat.mul_one, Binary64.two_pow_add_unit]
  exact Nat.mul_le_mul_right _
    (le_trans (two_pow_le_ten_pow e) (Nat.le_mul_of_pos_left _ hn))

/-- A number is below the power of ten of its number of digits. -/
lemma lt_ten_pow_length (n : ℕ) : n < 10 ^ (Nat.toDigits 10 n).length :=
  (Nat.length_toDigits_le_iff (by norm_num) Nat.length_toDigits_pos).1 le_rfl

/-- A positive number is not below the power of ten of its first digit. -/
lemma ten_pow_le_of_length {n : ℕ} (hn : 0 < n) :
    10 ^ ((Nat.toDigits 10 n).length - 1) ≤ n := by
  rcases Nat.eq_zero_or_pos ((Nat.toDigits 10 n).length - 1) with h | h
  · simpa [h] using Nat.succ_le_of_lt hn
  · by_contra hlt
    have := (Nat.length_toDigits_le_iff (by norm_num) h).2 (not_le.1 hlt)
    omega

/-- A number is below a power of ten exactly when its first digit stands below that place. -/
lemma value_lt_iff (d : Decimal) (k : Int) :
    d.value < 10 ^ k ↔ d.digits = 0 ∨ (Nat.toDigits 10 d.digits).length + d.exponent ≤ k := by
  rcases Nat.eq_zero_or_pos d.digits with h0 | hpos
  · simp only [value, h0, Nat.cast_zero, zero_mul, true_or, iff_true]
    positivity
  have hplace : ∀ {i j : Int}, (10 : ℚ) ^ i * 10 ^ j = 10 ^ (i + j) := fun {i j} =>
    (zpow_add₀ (by norm_num) i j).symm
  rw [or_iff_right hpos.ne', value]
  constructor
  · intro hlt
    by_contra hk
    have hlow : (10 : ℚ) ^ ((Nat.toDigits 10 d.digits).length - 1 : Int) ≤ d.digits := by
      have := ten_pow_le_of_length hpos
      rw [show ((Nat.toDigits 10 d.digits).length - 1 : Int) =
        ((Nat.toDigits 10 d.digits).length - 1 : ℕ) by
          have := Nat.length_toDigits_pos (b := 10) (n := d.digits)
          omega, zpow_natCast]
      exact_mod_cast this
    have hle : (10 : ℚ) ^ k ≤ d.digits * 10 ^ d.exponent :=
      calc (10 : ℚ) ^ k ≤ 10 ^ ((Nat.toDigits 10 d.digits).length - 1 + d.exponent : Int) :=
            zpow_le_zpow_right₀ (by norm_num) (by omega)
        _ = 10 ^ ((Nat.toDigits 10 d.digits).length - 1 : Int) * 10 ^ d.exponent := hplace.symm
        _ ≤ d.digits * 10 ^ d.exponent := by gcongr
    exact absurd hlt (not_lt.2 hle)
  · intro hk
    have hhigh : (d.digits : ℚ) < 10 ^ ((Nat.toDigits 10 d.digits).length : Int) := by
      rw [zpow_natCast]
      exact_mod_cast lt_ten_pow_length d.digits
    calc (d.digits : ℚ) * 10 ^ d.exponent
        < 10 ^ ((Nat.toDigits 10 d.digits).length : Int) * 10 ^ d.exponent := by gcongr
      _ = 10 ^ ((Nat.toDigits 10 d.digits).length + d.exponent : Int) := hplace
      _ ≤ 10 ^ k := zpow_le_zpow_right₀ (by norm_num) hk

/-- Reading a decimal is one rounding, but for numbers far below the least positive one. -/
lemma toBinary64_eq (d : Decimal) :
    d.toBinary64 =
      if d.value < 10 ^ (-401 : Int) then Binary64.zero
      else Binary64.ofUnits false (d.digits * 10 ^ d.exponent.toNat * Binary64.unit)
        (10 ^ (-d.exponent).toNat) := by
  have hsmall : d.value < 10 ^ (-401 : Int) ↔
      d.digits = 0 ∨ (Nat.toDigits 10 d.digits).length + d.exponent < -400 := by
    rw [value_lt_iff]
    omega
  rw [toBinary64, Binary64.ofDecimal, if_congr hsmall.symm rfl rfl]
  split_ifs with hzero hlarge hnonneg
  · rfl
  · -- such a number is not computed, but rounding it would give the infinity, too
    have hden : (-d.exponent).toNat = 0 := by omega
    have hpos : 0 < d.digits := Nat.pos_of_ne_zero fun h => hzero (hsmall.2 (Or.inl h))
    rw [hden, pow_zero]
    exact (ofUnits_ten_pow hpos (by omega)).symm
  · have hden : (-d.exponent).toNat = 0 := by omega
    rw [hden, pow_zero]
  · have hnum : d.exponent.toNat = 0 := by omega
    rw [hnum, pow_zero, Nat.mul_one]

/-- Decimals that denote one number are rounded alike. -/
lemma toBinary64_eq_of_value_eq (h : d.value = e.value) : d.toBinary64 = e.toBinary64 := by
  rw [toBinary64_eq, toBinary64_eq, h]
  split_ifs
  · rfl
  refine Binary64.ofUnits_congr false (by positivity) (by positivity) ?_
  rw [value_eq_div, value_eq_div, div_eq_div_iff (by positivity) (by positivity)] at h
  have h' : d.digits * 10 ^ d.exponent.toNat * 10 ^ (-e.exponent).toNat =
      e.digits * 10 ^ e.exponent.toNat * 10 ^ (-d.exponent).toNat := by exact_mod_cast h
  rw [Nat.mul_right_comm, h', Nat.mul_right_comm]

/-! ### The shortest decimal -/

/-- Dropping final zeros keeps the number. -/
lemma value_dropZeros (fuel : Nat) (d : Decimal) : (d.dropZeros fuel).value = d.value := by
  induction fuel generalizing d with
  | zero => rfl
  | succ fuel ih =>
    rw [dropZeros]
    split_ifs with h
    · rw [ih]
      have hdigits : (d.digits : ℚ) = (d.digits / 10 : ℕ) * 10 := by
        exact_mod_cast (Nat.div_mul_cancel (Nat.dvd_of_mod_eq_zero h)).symm
      rw [value, value, hdigits, zpow_add_one₀ (by norm_num)]
      ring
    · rfl

/-- Normalizing keeps the number. -/
lemma value_normalize (d : Decimal) : d.normalize.value = d.value := by
  unfold normalize
  split_ifs with h
  · simp [value, h]
  · exact value_dropZeros _ d

/-- As many zeros can be dropped as there are digits, so none is left at the end. -/
lemma dropZeros_digits_mod_ten {fuel : Nat} (hne : d.digits ≠ 0) (hlt : d.digits < 10 ^ fuel) :
    (d.dropZeros fuel).digits % 10 ≠ 0 := by
  induction fuel generalizing d with
  | zero => exact absurd (Nat.lt_one_iff.1 (by simpa using hlt)) hne
  | succ fuel ih =>
    rw [dropZeros]
    split_ifs with h
    · have hdiv : d.digits / 10 < 10 ^ fuel := by
        rw [pow_succ] at hlt
        exact Nat.div_lt_of_lt_mul (by omega)
      exact ih (d := ⟨d.digits / 10, d.exponent + 1⟩) (by dsimp only; omega) hdiv
    · exact h

/-- A normalized decimal ends in no zero. -/
lemma normalize_digits_mod_ten (h : d.digits ≠ 0) : d.normalize.digits % 10 ≠ 0 := by
  rw [normalize, if_neg h]
  exact dropZeros_digits_mod_ten h (lt_ten_pow_length d.digits)

/-- The full expansion of a positive finite number reads back. -/
lemma toBinary64_exact {x : Binary64} (hx : x.isFinite) (hsign : x.isNegative = false)
    (hzero : x.isZero = false) : (exact x).toBinary64 = x := by
  have hpos : 0 < x.scaledAbs := Binary64.scaledAbs_pos hzero
  have hlarge : ¬ (exact x).value < 10 ^ (-401 : Int) := by
    obtain ⟨n, hn⟩ : ∃ n, 1074 = 3 * n := ⟨358, rfl⟩
    have hdigits : 10 ^ (2 * n) ≤ (exact x).digits := by
      rw [exact, hn]
      exact le_trans (ten_pow_le_five_pow n) (Nat.le_mul_of_pos_left _ hpos)
    have hlength : ¬ (Nat.toDigits 10 (exact x).digits).length ≤ 2 * n := by
      rw [Nat.length_toDigits_le_iff (by norm_num) (by omega), not_lt]
      exact hdigits
    rw [value_lt_iff, not_or]
    refine ⟨(Nat.lt_of_lt_of_le (Nat.pow_pos (by norm_num)) hdigits).ne', ?_⟩
    simp only [exact] at hlength ⊢
    omega
  rw [toBinary64_eq, if_neg hlarge]
  conv_rhs => rw [← Binary64.ofUnits_scaledAbs hx, hsign]
  refine Binary64.ofUnits_congr false (by positivity) Nat.one_pos ?_
  have hden : (-(exact x).exponent).toNat = 1074 := rfl
  have hnum : (exact x).exponent.toNat = 0 := rfl
  rw [hden, hnum, pow_zero, Nat.mul_one, Nat.mul_one, exact, Binary64.unit]
  generalize 1074 = k
  rw [ten_pow_eq, Nat.mul_assoc]

/-- What is found on a grid reads back. -/
lemma toBinary64_of_onGrid {tie : Tie} {x : Binary64} {exponent : Int}
    (h : onGrid tie x exponent = some d) : d.toBinary64 = x := by
  unfold onGrid at h
  dsimp only at h
  split_ifs at h with hbelow habove
  · cases h
    exact hbelow.1
  · cases h
    exact habove

/-- What a search finds reads back. -/
lemma toBinary64_of_search {tie : Tie} {x : Binary64} {leading : Int} {fuel digits : Nat}
    (h : search tie x leading fuel digits = some d) : d.toBinary64 = x := by
  induction fuel generalizing digits with
  | zero => simp [search] at h
  | succ fuel ih =>
    rw [search, Option.or_eq_some_iff] at h
    rcases h with h | ⟨-, h⟩
    · exact toBinary64_of_onGrid h
    · exact ih h

/-- The shortest decimal of a positive number reads back as the number. -/
lemma toBinary64_shortest (tie : Tie) {x : Binary64} (hx : x.isFinite)
    (hsign : x.isNegative = false) (hzero : x.isZero = false) :
    (shortest tie x).toBinary64 = x := by
  rw [shortest, toBinary64_eq_of_value_eq (value_normalize _)]
  cases h : search tie x x.decimalExponent 17 1 with
  | none => exact toBinary64_exact hx hsign hzero
  | some d => exact toBinary64_of_search h

end Decimal

/-! ### Signs -/

namespace Binary64

lemma infinityBits_lt : infinityBits < 2 ^ 63 := by
  decide

/-- The sign and the magnitude of a number are rounded apart. -/
lemma ofUnits_eq (negative : Bool) (num den : ℕ) :
    ofUnits negative num den = ofMagnitude negative (ofUnits false num den).magnitude := by
  unfold ofUnits
  dsimp only
  rw [magnitude_ofMagnitude false (lt_of_le_of_lt (Nat.min_le_right _ _) infinityBits_lt)]

/-- Rounding does not depend on the sign. -/
lemma ofDecimal_eq (negative : Bool) (digits : ℕ) (exponent : Int) :
    ofDecimal negative digits exponent =
      ofMagnitude negative (ofDecimal false digits exponent).magnitude := by
  unfold ofDecimal
  split_ifs
  · rw [signedZero, signedZero, magnitude_ofMagnitude false (by norm_num)]
  · rw [infinity, infinity, magnitude_ofMagnitude false infinityBits_lt]
  · exact ofUnits_eq negative _ _
  · exact ofUnits_eq negative _ _

/-- A decimal that is read as the absolute value of a number, with the number's sign. -/
lemma ofDecimal_isNegative {x : Binary64} {d : Decimal} (h : d.toBinary64 = x.abs) :
    ofDecimal x.isNegative d.digits d.exponent = x := by
  have hmagnitude : (ofDecimal false d.digits d.exponent).magnitude = x.magnitude := by
    rw [show ofDecimal false d.digits d.exponent = x.abs from h]
    exact magnitude_ofMagnitude false (magnitude_lt x)
  rw [ofDecimal_eq, hmagnitude, ofMagnitude_magnitude]

end Binary64

end Dynval
