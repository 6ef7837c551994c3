import Mathlib.Algebra.Order.Field.Rat
import Mathlib.Algebra.Order.Floor.Ring
import Mathlib.Data.Rat.Floor
import Mathlib.Tactic.Linarith
import Dynval.Number.Arith
import Dynval.Platform
import Dynval.Proofs.Action.Basic

/-!
# Division rounds down

The truncated quotient of two 64-bit integers and its remainder are corrected apart: the one where
the signs of the operands differ, the other where its own sign is not that of the divisor. Both are
corrected in the same cases, because a truncated remainder has the sign of the dividend
(`tmod_neg_iff`), and then the remainder is exact and the quotient is the one rounded down, wrapped
to 64 bits.
-/

namespace Dynval

/-! ### Quotients rounded down -/

/-- Whether a number can be left over by a division that rounds down: it is smaller than the divisor
and has its sign, or is zero. -/
def IsRemainder (b r : Int) : Prop :=
  0 ≤ r ∧ r < b ∨ b < r ∧ r ≤ 0

namespace IsRemainder

variable {a b q r : Int}

/-- What is left over is zero or has the sign of the divisor. -/
lemma sign_eq (hr : IsRemainder b r) : r = 0 ∨ r.sign = b.sign := by
  rcases hr with ⟨hnonneg, hlt⟩ | ⟨hlt, hnonpos⟩
  · rcases hnonneg.eq_or_lt with hzero | hpos
    · exact Or.inl hzero.symm
    · rw [Int.sign_eq_one_of_pos hpos, Int.sign_eq_one_of_pos (hpos.trans hlt)]
      exact Or.inr rfl
  · rcases hnonpos.eq_or_lt with hzero | hneg
    · exact Or.inl hzero
    · rw [Int.sign_eq_neg_one_of_neg hneg, Int.sign_eq_neg_one_of_neg (hlt.trans hneg)]
      exact Or.inr rfl

/-- What is left over is smaller than the divisor. -/
lemma abs_lt (hr : IsRemainder b r) : |r| < |b| := by
  rcases hr with ⟨hnonneg, hlt⟩ | ⟨hlt, hnonpos⟩
  · rwa [abs_of_nonneg hnonneg, abs_of_nonneg (hnonneg.trans hlt.le)]
  · rw [abs_of_nonpos hnonpos, abs_of_nonpos (hlt.le.trans hnonpos)]
    exact neg_lt_neg hlt

/-- The quotient that leaves a remainder over is the one rounded down. -/
lemma floor_div_eq (hr : IsRemainder b r) (h : a = b * q + r) : ⌊(a : ℚ) / b⌋ = q := by
  have hcast : (a : ℚ) = b * q + r := by exact_mod_cast h
  rw [Int.floor_eq_iff]
  rcases hr with ⟨hnonneg, hlt⟩ | ⟨hlt, hnonpos⟩
  · have hb : (0 : ℚ) < b := by exact_mod_cast hnonneg.trans_lt hlt
    have hzero : (0 : ℚ) ≤ r := by exact_mod_cast hnonneg
    have hrb : (r : ℚ) < b := by exact_mod_cast hlt
    rw [le_div_iff₀ hb, div_lt_iff₀ hb]
    constructor <;> linarith
  · have hb : (b : ℚ) < 0 := by exact_mod_cast hlt.trans_le hnonpos
    have hzero : (r : ℚ) ≤ 0 := by exact_mod_cast hnonpos
    have hrb : (b : ℚ) < r := by exact_mod_cast hlt
    rw [le_div_iff_of_neg hb, div_lt_iff_of_neg hb]
    constructor <;> linarith

/-- Only the least 64-bit integer divided by minus one leaves the range. -/
lemma quotient_outside_iff (hr : IsRemainder b r) (h : a = b * q + r)
    (ha : -2 ^ 63 ≤ a ∧ a < 2 ^ 63) :
    q < -2 ^ 63 ∨ 2 ^ 63 ≤ q ↔ a = -2 ^ 63 ∧ b = -1 := by
  constructor
  · rcases hr with ⟨hnonneg, hlt⟩ | ⟨hlt, hnonpos⟩
    · rintro (hq | hq)
      · have hproduct : (b - 1) * (q + 1) ≤ 0 :=
          mul_nonpos_of_nonneg_of_nonpos (by omega) (by omega)
        linarith
      · have hproduct : 0 ≤ (b - 1) * q := mul_nonneg (by omega) (by omega)
        linarith
    · rintro (hq | hq)
      · have hproduct : 0 ≤ (b + 1) * (q + 1) :=
          mul_nonneg_of_nonpos_of_nonpos (by omega) (by omega)
        linarith
      · have hproduct : 0 ≤ (-1 - b) * q := mul_nonneg (by omega) (by omega)
        refine ⟨by linarith, ?_⟩
        by_contra hb
        have hdouble : 0 ≤ (-2 - b) * q := mul_nonneg (by omega) (by omega)
        linarith
  · rintro ⟨rfl, rfl⟩
    rcases hr with hr | hr <;> omega

end IsRemainder

/-! ### The corrections -/

/-- Whether the truncated quotient of two integers is above the exact one: something is left over,
and it does not have the sign of the divisor. -/
def RoundedUp (a b : Int) : Prop :=
  a.tmod b ≠ 0 ∧ ¬(a.tmod b < 0 ↔ b < 0)

instance (a b : Int) : Decidable (RoundedUp a b) :=
  inferInstanceAs (Decidable (_ ∧ _))

/-- The truncated remainder is smaller than the divisor. -/
lemma natAbs_tmod_lt (a : Int) {b : Int} (hb : b ≠ 0) : (a.tmod b).natAbs < b.natAbs := by
  rw [Int.natAbs_tmod]
  exact Nat.mod_lt _ (Int.natAbs_pos.2 hb)

/-- What is left over by the truncated division has the sign of the dividend. -/
lemma tmod_neg_iff {a b : Int} (h : a.tmod b ≠ 0) : a.tmod b < 0 ↔ a < 0 := by
  rcases lt_or_ge a 0 with hneg | hnonneg
  · have hnonpos := Int.tmod_nonneg b (Int.neg_nonneg_of_nonpos hneg.le)
    rw [Int.neg_tmod] at hnonpos
    omega
  · have := Int.tmod_nonneg b hnonneg
    omega

/-- The corrected remainder is one that rounding down leaves. -/
lemma isRemainder_corrected (a : Int) {b : Int} (hb : b ≠ 0) :
    IsRemainder b (if RoundedUp a b then a.tmod b + b else a.tmod b) := by
  have hlt := natAbs_tmod_lt a hb
  unfold RoundedUp IsRemainder
  split_ifs with h <;> omega

/-- The corrections of quotient and remainder cancel out. -/
lemma corrected_split (a b : Int) :
    a = b * (if RoundedUp a b then a.tdiv b - 1 else a.tdiv b) +
      (if RoundedUp a b then a.tmod b + b else a.tmod b) := by
  have hsplit := Int.mul_tdiv_add_tmod a b
  split_ifs with h
  · rw [mul_sub]
    omega
  · exact hsplit.symm

section

variable (i : Int64) {j : Int64}

/-- In 64 bits a remainder is zero exactly when the exact one is. -/
lemma mod_eq_zero_iff : i % j = 0 ↔ i.toInt.tmod j.toInt = 0 := by
  rw [← Int64.toInt_inj, Int64.toInt_mod, Int64.toInt_zero]

lemma neg_iff_toInt_neg : i < 0 ↔ i.toInt < 0 := by
  rw [Int64.lt_iff_toInt_lt, Int64.toInt_zero]

/-- The remainder is corrected where the truncated quotient is rounded up. -/
lemma toInt_floorModInt (hj : j ≠ 0) : (floorModInt i j).toInt =
    if RoundedUp i.toInt j.toInt then i.toInt.tmod j.toInt + j.toInt
    else i.toInt.tmod j.toInt := by
  have hcorrect : i % j ≠ 0 ∧ decide (i % j < 0) ≠ decide (j < 0) ↔
      RoundedUp i.toInt j.toInt := by
    rw [RoundedUp, Ne, mod_eq_zero_iff, Ne, decide_eq_decide, neg_iff_toInt_neg,
      neg_iff_toInt_neg, Int64.toInt_mod]
  have hlt := natAbs_tmod_lt i.toInt (b := j.toInt) fun h => hj (Int64.toInt_inj.1 h)
  have hlower := j.le_toInt
  have hupper := j.toInt_lt
  unfold floorModInt
  split_ifs with h h' h'
  -- the sum has smaller size than the divisor, so it does not wrap
  · have hsum : -2 ^ 63 ≤ i.toInt.tmod j.toInt + j.toInt ∧
        i.toInt.tmod j.toInt + j.toInt < 2 ^ 63 := by
      unfold RoundedUp at h'
      omega
    rw [Int64.toInt_add, Int64.toInt_mod]
    exact Int.bmod_eq_of_le hsum.1 hsum.2
  · exact absurd (hcorrect.1 h) h'
  · exact absurd (hcorrect.2 h') h
  · exact Int64.toInt_mod i j

/-- So is the quotient, although by the signs of the operands. -/
lemma floorDivInt_eq : floorDivInt i j = Int64.ofInt
    (if RoundedUp i.toInt j.toInt then i.toInt.tdiv j.toInt - 1 else i.toInt.tdiv j.toInt) := by
  have hcorrect : i % j ≠ 0 ∧ decide (i < 0) ≠ decide (j < 0) ↔ RoundedUp i.toInt j.toInt := by
    rw [RoundedUp, Ne, mod_eq_zero_iff, Ne, decide_eq_decide, neg_iff_toInt_neg,
      neg_iff_toInt_neg]
    exact and_congr_right fun h => by rw [tmod_neg_iff h]
  have hquotient : i / j = Int64.ofInt (i.toInt.tdiv j.toInt) :=
    Int64.toInt_inj.1 (by rw [Int64.toInt_div, Int64.toInt_ofInt])
  rw [floorDivInt, hquotient]
  split_ifs with h h' h'
  · rw [Int64.ofInt_sub]
    rfl
  · exact absurd (hcorrect.1 h) h'
  · exact absurd (hcorrect.2 h') h
  · rfl

/-- The remainder in 64 bits is one that rounding down leaves. -/
lemma isRemainder_floorModInt (hj : j ≠ 0) : IsRemainder j.toInt (floorModInt i j).toInt := by
  rw [toInt_floorModInt i hj]
  exact isRemainder_corrected i.toInt fun h => hj (Int64.toInt_inj.1 h)

/-- The exact quotient rounded down is the corrected truncated one. -/
lemma floor_div_eq_corrected (hj : j ≠ 0) : ⌊(i.toInt : ℚ) / j.toInt⌋ =
    if RoundedUp i.toInt j.toInt then i.toInt.tdiv j.toInt - 1 else i.toInt.tdiv j.toInt := by
  have hremainder := isRemainder_corrected i.toInt (b := j.toInt) fun h => hj (Int64.toInt_inj.1 h)
  exact hremainder.floor_div_eq (corrected_split i.toInt j.toInt)

/-- The corrected quotient is the quotient rounded down, wrapped. -/
lemma floorDivInt_eq_floor (hj : j ≠ 0) :
    floorDivInt i j = Int64.ofInt ⌊(i.toInt : ℚ) / j.toInt⌋ := by
  rw [floorDivInt_eq, floor_div_eq_corrected i hj]

/-- The corrected remainder is exactly what the quotient rounded down leaves over. -/
lemma toInt_eq_mul_floor_add (hj : j ≠ 0) :
    i.toInt = j.toInt * ⌊(i.toInt : ℚ) / j.toInt⌋ + (floorModInt i j).toInt := by
  rw [floor_div_eq_corrected i hj, toInt_floorModInt i hj]
  exact corrected_split i.toInt j.toInt

/-- The quotient wraps in one case only: the least integer divided by minus one. -/
lemma toInt_floorDivInt_ne_iff (hj : j ≠ 0) :
    (floorDivInt i j).toInt ≠ ⌊(i.toInt : ℚ) / j.toInt⌋ ↔ i = Int64.minValue ∧ j = -1 := by
  have houtside := (isRemainder_floorModInt i hj).quotient_outside_iff (toInt_eq_mul_floor_add i hj)
    ⟨i.le_toInt, i.toInt_lt⟩
  have hminus : (-1 : Int64).toInt = -1 := rfl
  rw [← Int64.toInt_inj, ← Int64.toInt_inj, Int64.toInt_minValue, hminus, ← houtside,
    floorDivInt_eq_floor i hj]
  constructor
  · intro hwrapped
    by_contra hinside
    exact hwrapped (Int64.toInt_ofInt_of_le (by omega) (by omega))
  · intro hq
    have := (Int64.ofInt ⌊(i.toInt : ℚ) / j.toInt⌋).le_toInt
    have := (Int64.ofInt ⌊(i.toInt : ℚ) / j.toInt⌋).toInt_lt
    omega

/-- The quotient may wrap, but times the divisor it wraps with the dividend. -/
lemma floorDivInt_mul_add (hj : j ≠ 0) : floorDivInt i j * j + floorModInt i j = i := by
  calc floorDivInt i j * j + floorModInt i j
      = Int64.ofInt (⌊(i.toInt : ℚ) / j.toInt⌋ * j.toInt + (floorModInt i j).toInt) := by
        rw [floorDivInt_eq_floor i hj, Int64.ofInt_add, Int64.ofInt_mul, Int64.ofInt_toInt,
          Int64.ofInt_toInt]
    _ = Int64.ofInt i.toInt := by rw [mul_comm, ← toInt_eq_mul_floor_add i hj]
    _ = i := Int64.ofInt_toInt i

end

/-! ### Division of values -/

namespace Arith

variable {x y : Value} {a b : Int64}

lemma number?_of_integer? (hx : x.integer? = some a) : x.number? = some (.int a) := by
  cases x <;> simp_all [Value.integer?, Value.number?]

lemma operands_of_integer? [FloatPrinter] (op : Operation) (s : Store) (hx : x.integer? = some a)
    (hy : y.integer? = some b) : operands op s x y = .ok (.int a, .int b) := by
  simp only [operands, number?_of_integer? hx, number?_of_integer? hy]

/-- The product of two integers wraps to 64 bits. -/
lemma mul_of_integer? [Platform] (s : Store) (hx : x.integer? = some a) (hy : y.integer? = some b) :
    mul x y s = ⟨.ok (.int (a * b)), s, []⟩ := by
  simp [mul, isRepeatable_of_integer? hx, isRepeatable_of_integer? hy,
    operands_of_integer? .mul s hx hy, Number.lift, Number.toValue]

/-- The sum of two integers wraps to 64 bits. -/
lemma add_of_integer? [FloatPrinter] (s : Store) (hx : x.integer? = some a)
    (hy : y.integer? = some b) : add x y s = ⟨.ok (.int (a + b)), s, []⟩ := by
  have hoperands := operands_of_integer? .add s hx hy
  cases x <;> cases y <;>
    simp_all [Value.integer?, add, Value.byteData?, Number.lift, Number.toValue]

/-- A division of integers fails only where the divisor is zero. -/
lemma divisionOperands_of_integer? [FloatPrinter] (op : Operation) (s : Store)
    (hx : x.integer? = some a) (hy : y.integer? = some b) :
    divisionOperands op s x y =
      if b = 0 then .error (.of op (.divisionByZero (.ofValue s x) (.ofValue s y)))
      else .ok (.int a, .int b) := by
  rw [divisionOperands, operands_of_integer? op s hx hy]
  by_cases hb : b = 0 <;> simp [hb, Number.isZero, bind, Except.bind, pure, Except.pure]

/-- What the four divisions of integers do, by the corrected quotient and remainder. -/
lemma divisions_of_integer? [FloatPrinter] (s : Store) (hx : x.integer? = some a)
    (hy : y.integer? = some b) (hb : b ≠ 0) :
    floordiv s x y = .ok (.int (floorDivInt a b)) ∧ mod s x y = .ok (.int (floorModInt a b)) ∧
      floordivInt a b = .ok (floorDivInt a b) ∧ modInt a b = .ok (floorModInt a b) := by
  refine ⟨?_, ?_, ?_, ?_⟩
  · rw [floordiv, divisionOperands_of_integer? .floordiv s hx hy, if_neg hb]
    rfl
  · rw [mod, divisionOperands_of_integer? .mod s hx hy, if_neg hb]
    rfl
  · simp [floordivInt, divide, Number.isZero, hb]
  · simp [modInt, divide, Number.isZero, hb]

/-- Division of integers, or of truth values as integers. For a divisor other than zero the
remainder is exactly what the quotient rounded down leaves over; it is zero or has the sign of the
divisor, and is smaller. The quotient is the one rounded down, wrapped to 64 bits, which changes it
only for the least integer divided by minus one. The quotient times the divisor plus the remainder
is the dividend again. A divisor zero raises a fault. -/
theorem floor_division_exact [Platform] (s : Store) (hx : x.integer? = some a)
    (hy : y.integer? = some b) :
    (b ≠ 0 → ∃ d r : Int64,
      floordiv s x y = .ok (.int d) ∧ mod s x y = .ok (.int r) ∧
      floordivInt a b = .ok d ∧ modInt a b = .ok r ∧
      r.toInt = a.toInt - b.toInt * ⌊(a.toInt : ℚ) / b.toInt⌋ ∧
      (r.toInt = 0 ∨ r.toInt.sign = b.toInt.sign) ∧ |r.toInt| < |b.toInt| ∧
      d = Int64.ofInt ⌊(a.toInt : ℚ) / b.toInt⌋ ∧
      (d.toInt ≠ ⌊(a.toInt : ℚ) / b.toInt⌋ ↔ a = Int64.minValue ∧ b = -1) ∧
      (do
        let quotient ← Action.check fun s => floordiv s x y
        let product ← mul quotient y
        let rest ← Action.check fun s => mod s x y
        add product rest) s = ⟨.ok (.int a), s, []⟩) ∧
    (b = 0 →
      (∃ f, floordiv s x y = .error f ∧ f.name = "DivisionByZero") ∧
      (∃ f, mod s x y = .error f ∧ f.name = "DivisionByZero") ∧
      (∃ f, floordivInt a b = .error f ∧ f.name = "DivisionByZero") ∧
      (∃ f, modInt a b = .error f ∧ f.name = "DivisionByZero")) := by
  constructor
  · intro hb
    obtain ⟨hfloordiv, hmod, hfloordivInt, hmodInt⟩ := divisions_of_integer? s hx hy hb
    have hremainder := isRemainder_floorModInt a hb
    have hsplit := toInt_eq_mul_floor_add a hb
    refine ⟨_, _, hfloordiv, hmod, hfloordivInt, hmodInt, by omega, hremainder.sign_eq,
      hremainder.abs_lt, floorDivInt_eq_floor a hb, toInt_floorDivInt_ne_iff a hb, ?_⟩
    simp [Action.bind_apply, hfloordiv, hmod, mul_of_integer? s (x := .int _) rfl hy,
      add_of_integer? s (x := .int _) (y := .int _) rfl rfl, floorDivInt_mul_add a hb]
  · rintro rfl
    refine ⟨⟨.of .floordiv (.divisionByZero (.ofValue s x) (.ofValue s y)), ?_, rfl⟩,
      ⟨.of .mod (.divisionByZero (.ofValue s x) (.ofValue s y)), ?_, rfl⟩,
      ⟨_, rfl, rfl⟩, ⟨_, rfl, rfl⟩⟩
    · rw [floordiv, divisionOperands_of_integer? .floordiv s hx hy, if_pos rfl]
      rfl
    · rw [mod, divisionOperands_of_integer? .mod s hx hy, if_pos rfl]
      rfl

section

attribute [local instance] Platform.standard

/-- The least integer divided by minus one, and a truth value by a negative integer. -/
theorem floor_division_at_ends :
    (∃ d r : Int64,
      floordiv .empty (.int Int64.minValue) (.int (-1)) = .ok (.int d) ∧
        mod .empty (.int Int64.minValue) (.int (-1)) = .ok (.int r) ∧
        d.toInt ≠ ⌊(Int64.minValue.toInt : ℚ) / (-1 : Int64).toInt⌋ ∧ |r.toInt| < 1) ∧
      ∃ r : Int64, mod .empty (.bool true) (.int (-3)) = .ok (.int r) ∧
        (r.toInt = 0 ∨ r.toInt.sign = -1) := by
  constructor
  · obtain ⟨d, r, hd, hr, -, -, -, -, hlt, -, hwrapped, -⟩ :=
      (floor_division_exact .empty (x := .int Int64.minValue) (y := .int (-1)) rfl rfl).1
        (by decide)
    exact ⟨d, r, hd, hr, hwrapped.2 ⟨rfl, rfl⟩, hlt⟩
  · obtain ⟨d, r, -, hr, -, -, -, hsign, -⟩ :=
      (floor_division_exact .empty (x := .bool true) (y := .int (-3)) rfl rfl).1 (by decide)
    exact ⟨r, hr, hsign⟩

end

end Arith

end Dynval
