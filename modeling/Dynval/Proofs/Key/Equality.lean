import Dynval.Fault
import Dynval.Proofs.Key.Order
import Dynval.Proofs.Value.Equality

/-!
# Keys agree with equality

The key of a value has the facet of the value, and keys of values are told apart by their facets:
an integral float has become an integer, so that no two of them stand for one number. Therefore two
values have one key exactly when they are identical or equal.
-/

namespace Dynval

namespace Binary64

/-- An infinity counts as the next power of two above the finite numbers. -/
lemma scaledAbs_of_infinite {x : Binary64} (hx : x.magnitude = infinityBits) :
    x.scaledAbs = 2 ^ 2098 := by
  simp only [scaledAbs, significand, exponent, hx]
  decide +kernel

/-- A number that is no NaN is determined by its sign and its count of units. -/
lemma ofUnits_scaledAbs_of_not_isNaN {x : Binary64} (hx : x.isNaN = false) :
    ofUnits x.isNegative x.scaledAbs 1 = x := by
  have hle : x.magnitude ≤ infinityBits := by simpa [isNaN] using hx
  rcases Nat.lt_or_eq_of_le hle with hlt | heq
  · exact ofUnits_scaledAbs (by simpa [isFinite] using hlt)
  · rw [scaledAbs_of_infinite heq, ofUnits_of_le _ Nat.one_pos (Nat.le_refl 2098) (by rw [mul_one]),
      infinity, ← heq, ofMagnitude_magnitude]

/-- The sign does not change the absolute value in units. -/
lemma natAbs_scaled (x : Binary64) : x.scaled.natAbs = x.scaledAbs := by
  unfold scaled
  split_ifs
  · rw [Int.natAbs_neg, Int.natAbs_natCast]
  · exact Int.natAbs_natCast _

/-- Numbers with one count of units other than zero have the same bits. -/
lemma eq_of_scaled_eq {x y : Binary64} (hx : x.isNaN = false) (hy : y.isNaN = false)
    (h : x.scaled = y.scaled) (h0 : x.scaled ≠ 0) : x = y := by
  have hsame : x.isNegative = y.isNegative ∧ x.scaledAbs = y.scaledAbs := by
    unfold scaled at h h0
    cases hx : x.isNegative <;> cases hy : y.isNegative <;> simp [hx, hy] at h h0 ⊢ <;> omega
  rw [← ofUnits_scaledAbs_of_not_isNaN hx, ← ofUnits_scaledAbs_of_not_isNaN hy, hsame.1, hsame.2]

lemma isNaN_of_isFinite {x : Binary64} (hx : x.isFinite) : x.isNaN = false := by
  have hlt : x.magnitude < infinityBits := by simpa [isFinite] using hx
  simpa [isNaN] using hlt.le

/-- A number with as many units as a 64-bit integer is finite. -/
lemma isFinite_of_scaled_eq {x : Binary64} (hx : x.isNaN = false) {i : Int64}
    (h : x.scaled = i.toInt * unit) : x.isFinite := by
  have hle : x.magnitude ≤ infinityBits := by simpa [isNaN] using hx
  refine decide_eq_true (Nat.lt_of_le_of_ne hle fun hinf => ?_)
  have hunits : x.scaledAbs = i.toInt.natAbs * unit := by
    rw [← natAbs_scaled, h, Int.natAbs_mul, Int.natAbs_natCast]
  have hbound : i.toInt.natAbs * unit ≤ 2 ^ 63 * unit := by
    have := i.le_toInt
    have := i.toInt_lt
    gcongr
    omega
  have hlt : 2 ^ 63 * unit < 2 ^ 2098 := by decide +kernel
  rw [← hunits, scaledAbs_of_infinite hinf] at hbound
  exact absurd hbound (Nat.not_le.2 hlt)

end Binary64

/-- A number fits 64 bits exactly when it is a 64-bit integer. -/
lemma Text.toInt64?_eq_some_iff {n : Int} {i : Int64} : toInt64? n = some i ↔ n = i.toInt := by
  unfold toInt64?
  constructor
  · intro h
    obtain ⟨⟨hlo, hhi⟩, hn⟩ := Option.ite_none_right_eq_some.1 h
    rw [← Option.some.inj hn, Int64.toInt_ofInt_of_le hlo (Int.lt_add_one_of_le hhi)]
  · rintro rfl
    rw [if_pos ⟨i.minValue_le_toInt, i.toInt_le⟩, Int64.ofInt_toInt]

namespace Key

/-- The floats that become an integer are those with as many units as it. -/
lemma integral?_eq_some_iff {x : Binary64} {i : Int64} :
    integral? x = some i ↔ (Number.float x).units? = (Number.int i).units? := by
  have hunit : (Binary64.unit : Int) ≠ 0 := by exact_mod_cast Binary64.unit_pos.ne'
  simp only [integral?, Binary64.isIntegral, Option.ite_none_right_eq_some,
    Option.ite_none_left_eq_some, Text.toInt64?_eq_some_iff, Number.units?, Option.some.injEq,
    Binary64.truncInt, Bool.and_eq_true, beq_iff_eq, Bool.not_eq_true]
  constructor
  · rintro ⟨⟨hfinite, hwhole⟩, hi⟩
    refine ⟨?_, ?_⟩
    · exact Binary64.isNaN_of_isFinite hfinite
    · rw [← hi, Int.tdiv_mul_cancel (Int.dvd_of_emod_eq_zero hwhole)]
  · rintro ⟨hnan, hunits⟩
    have hfinite := Binary64.isFinite_of_scaled_eq hnan hunits
    refine ⟨⟨hfinite, ?_⟩, ?_⟩
    · rw [hunits, Int.mul_emod_left]
    · rw [hunits, Int.mul_tdiv_cancel _ hunit]

/-- Exactly the containers have no key. -/
lemma ofValue?_eq_none_iff {v : Value} : ofValue? v = none ↔ v.kind.isComposite := by
  cases v <;> simp [ofValue?, Value.kind, Kind.isComposite]

/-- Every value that is no container is a key. -/
lemma exists_ofValue? {v : Value} (h : v.kind.isComposite = false) : ∃ k, ofValue? v = some k := by
  refine Option.ne_none_iff_exists'.1 fun hnone => ?_
  rw [ofValue?_eq_none_iff.1 hnone] at h
  cases h

/-- The key of a float is the integer that the float is, or else the float itself. -/
lemma ofValue?_float_cases {x : Binary64} {k : Key} (h : ofValue? (.float x) = some k) :
    (∃ i, integral? x = some i ∧ k = .int i) ∨ integral? x = none ∧ k = .float x := by
  cases hx : integral? x <;> simp [ofValue?, hx] at h ⊢ <;> exact h.symm

/-- The key of a value has the facet of the value. -/
lemma facet_toValue {v : Value} {k : Key} (h : ofValue? v = some k) (s : Store) :
    k.toValue.facet s = v.facet s := by
  cases v with
  | float x =>
    obtain ⟨i, hx, rfl⟩ | ⟨-, rfl⟩ := ofValue?_float_cases h
    · exact congrArg Facet.number (integral?_eq_some_iff.1 hx).symm
    · rfl
  | list r | map r | byteArray r => cases h
  | _ =>
    cases h
    rfl

/-- The value of a key has the same key again. -/
lemma ofValue?_toValue {v : Value} {k : Key} (h : ofValue? v = some k) :
    ofValue? k.toValue = some k := by
  cases v with
  | float x =>
    obtain ⟨i, -, rfl⟩ | ⟨-, rfl⟩ := ofValue?_float_cases h
    · rfl
    · exact h
  | list r | map r | byteArray r => cases h
  | _ =>
    cases h
    rfl

/-- Integers of one size in units are one integer. -/
lemma units?_int_injective {i j : Int64} (h : (Number.int i).units? = (Number.int j).units?) :
    i = j := by
  have hunit : (Binary64.unit : Int) ≠ 0 := by exact_mod_cast Binary64.unit_pos.ne'
  exact Int64.toInt_inj.1 (mul_right_cancel₀ hunit (Option.some.inj h))

lemma units?_float_eq_some {x : Binary64} {n : Int} (h : (Number.float x).units? = some n) :
    x.isNaN = false ∧ x.scaled = n := by
  simpa [Number.units?] using h

/-- Keys of values are told apart by their facets. -/
lemma eq_of_facet_eq {k l : Key} {s : Store} (hk : ofValue? k.toValue = some k)
    (hl : ofValue? l.toValue = some l) (h : k.toValue.facet s = l.toValue.facet s)
    (hrefl : (k.toValue.facet s).isReflexive) : k = l := by
  have hfloat {x : Binary64} (hx : ofValue? (.float x) = some (.float x)) (i : Int64) :
      (Number.float x).units? ≠ (Number.int i).units? := by
    intro hunits
    rw [ofValue?, integral?_eq_some_iff.2 hunits] at hx
    cases hx
  cases k <;> cases l <;> simp only [toValue, Value.facet, Facet.number.injEq, Facet.text.injEq,
    Facet.bytes.injEq, reduceCtorEq] at h hk hl hrefl ⊢
  case int.int i j => rw [units?_int_injective h]
  case int.float i y => exact hfloat hl i h.symm
  case float.int x j => exact hfloat hk j h
  case float.float x y =>
    obtain ⟨n, hn⟩ := Option.isSome_iff_exists.1 hrefl
    obtain ⟨hx, hxn⟩ := units?_float_eq_some hn
    obtain ⟨hy, hyn⟩ := units?_float_eq_some (h ▸ hn)
    -- a zero of either sign has become the integer zero
    have hzero : x.scaled ≠ 0 := by
      intro h0
      refine hfloat hk 0 ?_
      rw [hn, ← hxn, h0, Number.units?, Int64.toInt_zero, Int.zero_mul]
    rw [Binary64.eq_of_scaled_eq hx hy (hxn.trans hyn.symm) hzero]
  case str.str => rw [h]
  case bytes.bytes => rw [h]

/-- A float key is the key of one value only. -/
lemma eq_float_of_ofValue? {v : Value} {x : Binary64} (h : ofValue? v = some (.float x)) :
    v = .float x := by
  cases v with
  | float y =>
    obtain ⟨i, -, hi⟩ | ⟨-, hy⟩ := ofValue?_float_cases h
    · cases hi
    · rw [Key.float.inj hy]
  | _ => simp [ofValue?] at h

/-- A value with a key that does not equal itself is a NaN, and its key is that NaN. -/
lemma exists_float_of_not_isReflexive {v : Value} {k : Key} {s : Store} (h : ofValue? v = some k)
    (hrefl : (v.facet s).isReflexive = false) : ∃ x, k = .float x ∧ v = .float x := by
  cases v with
  | float x =>
    obtain ⟨i, hx, -⟩ | ⟨-, hk⟩ := ofValue?_float_cases h
    · rw [Value.facet, integral?_eq_some_iff.1 hx] at hrefl
      cases hrefl
    · exact ⟨x, hk, rfl⟩
  | list r | map r | byteArray r => cases h
  | _ => cases hrefl

/-- Two values have one key exactly when they are identical or equal. -/
lemma ofValue?_eq_iff {a b : Value} {k l : Key} (ha : ofValue? a = some k)
    (hb : ofValue? b = some l) (s : Store) : k = l ↔ a.isOrEquals s b := by
  have hleaf : a.node? = none := by cases a <;> simp_all [ofValue?, Value.node?]
  have hfk := facet_toValue ha s
  have hfl := facet_toValue hb s
  rw [Value.isOrEquals_iff_eq_or_equals, Value.equals_leaf_iff hleaf]
  constructor
  · rintro rfl
    cases hrefl : (a.facet s).isReflexive with
    | true => exact Or.inr ⟨hfk.symm.trans hfl, rfl⟩
    | false =>
      obtain ⟨x, rfl, rfl⟩ := exists_float_of_not_isReflexive ha hrefl
      exact Or.inl (eq_float_of_ofValue? hb).symm
  · rintro (rfl | ⟨hfacet, hrefl⟩)
    · exact Option.some.inj (ha.symm.trans hb)
    · refine eq_of_facet_eq (s := s) (ofValue?_toValue ha) (ofValue?_toValue hb) ?_ ?_
      · rw [hfk, hfl, hfacet]
      · rwa [hfk]

/-- The key with a fault for containers is the key without. -/
lemma ofValue_eq_ok_iff {v : Value} {k : Key} : ofValue v = .ok k ↔ ofValue? v = some k := by
  unfold ofValue
  cases ofValue? v <;> simp

/-- Every value that is no container has a key. Two such values have one key, or keys that compare
as equal, exactly when they are identical or equal. A key as a value counts as equal to the value
that it was made from, and the key of that value is the same key again. -/
theorem ofValue_eq_iff_isOrEquals (s : Store) {a b : Value} (ha : a.kind.isComposite = false)
    (hb : b.kind.isComposite = false) :
    ∃ k l, ofValue a = .ok k ∧ ofValue b = .ok l ∧
      (k = l ↔ a.isOrEquals s b) ∧
      (k.compare l = .eq ↔ a.isOrEquals s b) ∧
      k.toValue.isOrEquals s a ∧
      ofValue k.toValue = .ok k := by
  obtain ⟨k, hk⟩ := exists_ofValue? ha
  obtain ⟨l, hl⟩ := exists_ofValue? hb
  have hiff := ofValue?_eq_iff hk hl s
  refine ⟨k, l, ofValue_eq_ok_iff.2 hk, ofValue_eq_ok_iff.2 hl, hiff, ?_, ?_, ?_⟩
  · rw [Std.LawfulEqCmp.compare_eq_iff_eq, hiff]
  · exact (ofValue?_eq_iff (ofValue?_toValue hk) hk s).1 rfl
  · exact ofValue_eq_ok_iff.2 (ofValue?_toValue hk)

/-- At the lower end of the integers a float and an integer that are equal have one key; at the
upper end the float is above every integer and keeps a key of its own. -/
theorem keys_at_ends_of_integers :
    ofValue (.float Binary64.int64Bound.neg) = ofValue (.int Int64.minValue) ∧
      ofValue (.float Binary64.int64Bound) ≠ ofValue (.int Int64.maxValue) := by
  constructor
  · obtain ⟨k, l, hk, hl, hiff, -⟩ := ofValue_eq_iff_isOrEquals .empty
      (a := .float Binary64.int64Bound.neg) (b := .int Int64.minValue) rfl rfl
    rw [hk, hl, hiff.2 (by decide +kernel)]
  · obtain ⟨k, l, hk, hl, hiff, -⟩ := ofValue_eq_iff_isOrEquals .empty
      (a := .float Binary64.int64Bound) (b := .int Int64.maxValue) rfl rfl
    rw [hk, hl]
    intro heq
    exact absurd (hiff.1 (Except.ok.inj heq)) (by decide +kernel)

end Key

end Dynval
