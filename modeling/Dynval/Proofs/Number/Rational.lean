import Mathlib.Algebra.Order.Field.Rat
import Mathlib.Tactic.FieldSimp
import Dynval.Platform
import Dynval.Proofs.Key.Equality
import Dynval.Proofs.Value.Order

/-!
# Integers and floats as rational numbers

A finite float denotes a rational number, read off its sign, exponent and fraction (`toRat`). It is
the number of its units, divided by the number of units in one. Comparing an integer with a float
compares the two rational numbers, although it goes by the whole part of the float first and never
leaves the 64 bits of either.
-/

namespace Dynval

namespace Binary64

/-! ### The number that a float denotes -/

/-- The absolute value of the number that a finite float denotes: its fraction behind a one, or
behind a zero if it is subnormal, scaled by its exponent. -/
def toRatAbs (x : Binary64) : ℚ :=
  let exponent : Nat := x.magnitude / 2 ^ 52
  let fraction : ℚ := (x.magnitude % 2 ^ 52 : Nat) / 2 ^ 52
  if exponent = 0 then fraction * 2 ^ (-1022 : ℤ)
  else (1 + fraction) * 2 ^ ((exponent : ℤ) - 1023)

def toRat (x : Binary64) : ℚ :=
  if x.isNegative then -x.toRatAbs else x.toRatAbs

lemma zpow_mul_unit (k : ℤ) : (2 : ℚ) ^ k * unit = 2 ^ (k + 1074) := by
  have hunit : (unit : ℚ) = 2 ^ ((1074 : Nat) : ℤ) := by
    rw [unit]
    generalize 1074 = n
    rw [zpow_natCast]
    exact Nat.cast_pow 2 n
  rw [hunit, ← zpow_add₀ two_ne_zero, Nat.cast_ofNat]

/-- The number that a float denotes, in units, is its count of units. -/
lemma toRatAbs_mul_unit (x : Binary64) : x.toRatAbs * unit = x.scaledAbs := by
  by_cases hexp : x.magnitude / 2 ^ 52 = 0
  · have hmod : x.magnitude % 2 ^ 52 = x.magnitude := by omega
    simp only [toRatAbs, scaledAbs, significand, exponent, hexp, if_true, hmod, mul_assoc,
      zpow_mul_unit]
    norm_num
  · obtain ⟨e, he⟩ := Nat.exists_eq_succ_of_ne_zero hexp
    simp only [toRatAbs, scaledAbs, significand, exponent, hexp, if_false, mul_assoc,
      zpow_mul_unit]
    have hpow : (2 : ℚ) ^ ((x.magnitude / 2 ^ 52 : Nat) - 1023 + 1074 : ℤ) = 2 ^ (52 + e) := by
      rw [← zpow_natCast]
      congr 1
      omega
    rw [hpow, he]
    push_cast
    field_simp
    ring

/-- A finite float is as many units as its number says. -/
lemma toRat_mul_unit (x : Binary64) : x.toRat * unit = x.scaled := by
  unfold toRat scaled
  split_ifs
  · rw [neg_mul, toRatAbs_mul_unit, Int.cast_neg, Int.cast_natCast]
  · rw [toRatAbs_mul_unit, Int.cast_natCast]

/-- An integer and a finite float are ordered as their units are. -/
lemma cmp_toRat (i : Int) (x : Binary64) :
    cmp (i : ℚ) x.toRat = compare (i * unit) x.scaled := by
  have hunit : (0 : ℚ) < unit := by exact_mod_cast unit_pos
  calc cmp (i : ℚ) x.toRat
      = cmp (i * unit : ℚ) (x.toRat * unit) := (cmp_mul_pos_right hunit _ _).symm
    _ = cmp ((i * unit : ℤ) : ℚ) (x.scaled : ℚ) := by
        rw [toRat_mul_unit, Int.cast_mul, Int.cast_natCast]
    _ = cmp (i * unit) x.scaled := Int.cast_strictMono.cmp_map_eq _ _
    _ = compare (i * unit) x.scaled := cmp_eq_compare _ _

/-- An infinity counts as a power of two above every finite number. -/
lemma scaled_infinity (negative : Bool) :
    (infinity negative).scaled = if negative then -2 ^ 2098 else 2 ^ 2098 := by
  cases negative <;> decide +kernel

lemma isNaN_infinity (negative : Bool) : (infinity negative).isNaN = false := by
  cases negative <;> decide +kernel

/-- The infinities are beyond all integers. -/
lemma mul_unit_lt_infinity (i : Int64) :
    -2 ^ 2098 < i.toInt * unit ∧ i.toInt * unit < 2 ^ 2098 := by
  have hunit : (0 : Int) ≤ unit := Int.natCast_nonneg _
  have hlimit : 2 ^ 63 * (unit : Int) < 2 ^ 2098 := by decide +kernel
  have hlo := mul_le_mul_of_nonneg_right i.le_toInt hunit
  have hhi := mul_le_mul_of_nonneg_right i.toInt_lt.le hunit
  refine ⟨lt_of_lt_of_le ?_ hlo, hhi.trans_lt hlimit⟩
  rw [neg_mul]
  exact neg_lt_neg hlimit

end Binary64

/-! ### The order of units -/

namespace Number

variable (i : Int64) (x : Binary64)

/-- Beside a finite float an integer is compared as a rational number. -/
lemma compareUnits_finite (hx : x.isFinite) :
    compareUnits (int i).units? (float x).units? = some (cmp (i.toInt : ℚ) x.toRat) := by
  rw [Binary64.cmp_toRat, units?, units?, Binary64.isNaN_of_isFinite hx]
  rfl

/-- Every integer lies between the infinities. -/
lemma compareUnits_infinity (negative : Bool) :
    compareUnits (int i).units? (float (.infinity negative)).units? =
      some (if negative then .gt else .lt) := by
  obtain ⟨hlo, hhi⟩ := Binary64.mul_unit_lt_infinity i
  rw [units?, units?, Binary64.isNaN_infinity, Binary64.scaled_infinity]
  cases negative with
  | false => exact congrArg some (compare_lt_iff_lt.2 hhi)
  | true => exact congrArg some (compare_gt_iff_gt.2 hlo)

/-- A NaN has no order to an integer. -/
lemma compareUnits_nan (hx : x.isNaN) :
    compareUnits (int i).units? (float x).units? = none := by
  rw [units?, units?, if_pos hx]
  rfl

end Number

namespace Value

variable {s : Store} {a b : Value} {m n : Option Int}

/-! ### Values that are numbers -/

lemma not_list_of_facet (ha : a.facet s = .number m) (r : Ref) : a ≠ .list r := by
  rintro rfl
  cases ha

/-- Numbers are compared by their counts of units. -/
lemma compare_of_facets [FloatPrinter] (ha : a.facet s = .number m) (hb : b.facet s = .number n) :
    a.compare s b = .ok (compareUnits m n) := by
  rw [compare_eq_ok_iff, order_flat fun x _ hx => absurd hx (not_list_of_facet ha x), ha, hb]
  rfl

/-- Numbers are equal exactly when their counts of units are. -/
lemma equals_of_facets (ha : a.facet s = .number m) (hb : b.facet s = .number n) :
    a.equals s b ↔ compareUnits m n = some .eq := by
  have hleaf : a.node? = none := by
    cases a <;> simp_all [facet, node?]
  rw [equals_leaf_iff hleaf, ha, hb, compareUnits_eq_iff]
  simp [Facet.isReflexive]

/-- The order of the units of two values decides all comparisons of the two. -/
lemma comparisons_of_facets [FloatPrinter] (ha : a.facet s = .number m) (hb : b.facet s = .number n)
    {o : Option Ordering} (ho : compareUnits m n = o) :
    a.compare s b = .ok o ∧ b.compare s a = .ok (o.map Ordering.swap) ∧
      (a.equals s b ↔ o = some .eq) ∧ (b.equals s a ↔ o.map Ordering.swap = some .eq) := by
  have hswap := compareUnits_swap m n
  rw [ho] at hswap
  rw [compare_of_facets ha hb, compare_of_facets hb ha, equals_of_facets ha hb,
    equals_of_facets hb ha, ho, hswap]
  simp

lemma facet_of_integer? {i : Int64} (ha : a.integer? = some i) (s : Store) :
    a.facet s = .number (Number.int i).units? := by
  cases a <;> simp_all [integer?, facet]

/-- An integer, or a truth value, and a float are compared exactly, in either order and for
equality: a finite float as the rational number that it denotes, the infinities as above and below
all integers, and a NaN as unordered to every integer and equal to none. -/
theorem compare_integer_float_exact [FloatPrinter] {i : Int64} (ha : a.integer? = some i)
    (s : Store) (x : Binary64) :
    (x.isFinite →
      a.compare s (.float x) = .ok (some (cmp (i.toInt : ℚ) x.toRat)) ∧
      (Value.float x).compare s a = .ok (some (cmp x.toRat i.toInt)) ∧
      (a.equals s (.float x) ↔ (i.toInt : ℚ) = x.toRat) ∧
      ((Value.float x).equals s a ↔ x.toRat = i.toInt)) ∧
    (x = .infinity false →
      a.compare s (.float x) = .ok (some .lt) ∧ (Value.float x).compare s a = .ok (some .gt) ∧
      a.equals s (.float x) = false ∧ (Value.float x).equals s a = false) ∧
    (x = .infinity true →
      a.compare s (.float x) = .ok (some .gt) ∧ (Value.float x).compare s a = .ok (some .lt) ∧
      a.equals s (.float x) = false ∧ (Value.float x).equals s a = false) ∧
    (x.isNaN →
      a.compare s (.float x) = .ok none ∧ (Value.float x).compare s a = .ok none ∧
      a.equals s (.float x) = false ∧ (Value.float x).equals s a = false) := by
  have hfacet := facet_of_integer? ha s
  have hx : (Value.float x).facet s = .number (Number.float x).units? := rfl
  refine ⟨fun hfinite => ?_, ?_, ?_, fun hnan => ?_⟩
  · obtain ⟨hax, hxa, heq, heq'⟩ :=
      comparisons_of_facets hfacet hx (Number.compareUnits_finite i x hfinite)
    rw [Option.map_some, cmp_swap] at hxa heq'
    refine ⟨hax, hxa, ?_, ?_⟩
    · rw [heq, Option.some.injEq, cmp_eq_eq_iff]
    · rw [heq', Option.some.injEq, cmp_eq_eq_iff]
  · rintro rfl
    simpa using comparisons_of_facets hfacet hx (Number.compareUnits_infinity i false)
  · rintro rfl
    simpa using comparisons_of_facets hfacet hx (Number.compareUnits_infinity i true)
  · simpa using comparisons_of_facets hfacet hx (Number.compareUnits_nan i x hnan)

section

attribute [local instance] Platform.standard

/-- The integer behind `2 ^ 53`, which no float denotes, is above the float `2 ^ 53` and does not
equal it. -/
theorem integer_beside_float_compares_above :
    let a : Value := .int 9007199254740993
    let x : Binary64 := ⟨0x4340000000000000⟩
    a.integer? = some 9007199254740993 ∧ x.isFinite ∧ x.toRat = 9007199254740992 ∧
      a.compare .empty (.float x) = .ok (some .gt) ∧
      (Value.float x).compare .empty a = .ok (some .lt) ∧
      ¬ a.equals .empty (.float x) := by
  intro a x
  have hfinite : x.isFinite := by decide
  have hrat : x.toRat = 9007199254740992 := by
    have hbits : (4845873199050653696 : UInt64).toNat = 4845873199050653696 := rfl
    norm_num [x, Binary64.toRat, Binary64.toRatAbs, Binary64.magnitude, Binary64.isNegative, hbits]
  have hi : (9007199254740993 : Int64).toInt = 9007199254740993 := by decide
  obtain ⟨hexact, -⟩ :=
    compare_integer_float_exact (a := a) (i := 9007199254740993) rfl .empty x
  obtain ⟨hax, hxa, heq, -⟩ := hexact hfinite
  rw [hi, hrat] at hax hxa heq
  refine ⟨rfl, hfinite, hrat, ?_, ?_, ?_⟩
  · rw [hax, (cmp_eq_gt_iff _ _).2 (by norm_num)]
  · rw [hxa, (cmp_eq_lt_iff _ _).2 (by norm_num)]
  · rw [heq]
    norm_num

end

end Value

end Dynval
