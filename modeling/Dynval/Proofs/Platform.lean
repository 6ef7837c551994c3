import Dynval.Platform
import Dynval.Proofs.Binary64.Text

/-!
# The standard printer

The literal of a positive number is that of the shortest decimal that reads back as the number. So
literals of different numbers denote different decimals, and none of them is long: the first digit
stands at most some hundred places from the point (`Decimal.le_leading`, `Decimal.leading_lt`), and
the search for the decimal begins there.
-/

namespace Dynval

namespace Decimal

variable {d : Decimal} {x : Binary64}

/-! ### Sizes -/

lemma length_toDigits_le (n : ℕ) : (Nat.toDigits 10 n).length ≤ n + 1 := by
  rw [Nat.length_toDigits_le_iff (by norm_num) (Nat.succ_pos n)]
  exact (Nat.lt_succ_self n).trans (Nat.lt_pow_self (by norm_num))

lemma length_positional_le (digits : List Char) (leading : Int) :
    (positional digits leading).length ≤ digits.length + leading.natAbs + 3 := by
  unfold positional
  dsimp only
  split_ifs <;>
    simp only [List.length_append, List.length_cons, List.length_nil, List.length_replicate,
      List.length_take, List.length_drop] <;> omega

lemma length_scientific_le (digits exponent : List Char) :
    (scientific digits exponent).length ≤ digits.length + exponent.length + 2 := by
  unfold scientific
  split_ifs <;>
    simp only [List.length_append, List.length_cons, List.length_nil, List.length_take,
      List.length_drop] <;> omega

lemma length_intChars_le (i : Int) : (intChars i).length ≤ i.natAbs + 2 := by
  have hdigits := length_toDigits_le i.natAbs
  unfold intChars
  split_ifs
  · rw [List.length_cons]
    omega
  · omega

/-- A literal is not longer than its digits and its exponent ask for. -/
lemma length_literal_le (d : Decimal) :
    d.literal.length ≤ (Nat.toDigits 10 d.digits).length + d.leading.natAbs + 4 := by
  unfold literal
  dsimp only
  split_ifs
  · exact (length_positional_le _ _).trans (by omega)
  · have hexponent := length_intChars_le d.leading
    exact (length_scientific_le _ _).trans (by omega)

/-- Without an exponent, only the digits behind the point count. -/
lemma natAbs_exponent_le {cs : List Char} (h : Text.IsDecimal cs d)
    (hmark : ∀ c ∈ cs, c ≠ 'e' ∧ c ≠ 'E') : d.exponent.natAbs ≤ cs.length := by
  obtain ⟨whole, point, fraction, exponent, e, -, hpoint, -, hexponent, rfl, rfl⟩ := h
  have hlength : fraction.length ≤ point.length := by cases hpoint <;> simp
  cases hexponent with
  | none =>
    simp only [List.append_nil, List.length_append]
    omega
  | @some mark =>
    rename_i hsome _ _ _
    obtain ⟨he, hE⟩ := hmark mark (by simp)
    exact absurd hsome (not_or.2 ⟨he, hE⟩)

/-! ### Reading literals -/

/-- The literal of a decimal denotes it, and its exponent is no greater than that of the decimal, or
than the literal is long. -/
lemma exists_isDecimal_literal (d : Decimal) :
    ∃ e : Decimal, Text.IsDecimal d.literal e ∧ e.value = d.value ∧
      e.exponent.natAbs ≤ max d.exponent.natAbs d.literal.length := by
  have hvalue : Nat.ofDigitChars 10 (Nat.toDigits 10 d.digits) 0 = d.digits :=
    Nat.ofDigitChars_ten_toDigits
  unfold literal
  dsimp only
  split_ifs
  · obtain ⟨e, hread, he⟩ := readDecimal_positional isDigit_of_mem_toDigits Nat.length_toDigits_pos
      hvalue d.exponent_eq
    have hdecimal := Text.readDecimal_eq_some_iff.1 hread
    refine ⟨e, hdecimal, he, le_max_of_le_right (natAbs_exponent_le hdecimal ?_)⟩
    intro c hc
    rcases mem_positional hc with hdigit | rfl | rfl
    · have hdigit := isDigit_of_mem_toDigits c hdigit
      constructor <;> rintro rfl <;> exact absurd hdigit (by decide)
    all_goals decide
  · have hread := readDecimal_scientific isDigit_of_mem_toDigits Nat.length_toDigits_pos hvalue
      d.exponent_eq (signed?_intChars _)
    exact ⟨d, Text.readDecimal_eq_some_iff.1 hread, rfl, le_max_left _ _⟩

/-! ### The place of the shortest decimal -/

/-- A decimal that reads as a number other than zero is not too small for one. -/
lemma le_leading (hzero : d.toBinary64.isZero = false) : -401 ≤ d.leading := by
  rw [toBinary64_eq] at hzero
  split_ifs at hzero with hsmall
  · exact absurd hzero (by decide)
  · rw [value_lt_iff, not_or] at hsmall
    unfold leading
    omega

/-- A decimal that reads as a finite number is not too large for one. -/
lemma leading_lt {n : ℕ} (hn : 400 < n) (hne : d.digits ≠ 0) (hfinite : d.toBinary64.isFinite) :
    d.leading < n := by
  by_contra hlarge
  have hvalue : (10 : ℚ) ^ (n : Int) ≤ d.value := by
    rw [← not_lt, value_lt_iff, not_or]
    unfold leading at hlarge
    exact ⟨hne, by omega⟩
  have hsmall : ¬ d.value < 10 ^ (-401 : Int) :=
    not_lt.2 (le_trans (zpow_le_zpow_right₀ (by norm_num) (by omega)) hvalue)
  have hratio : 10 ^ n * 10 ^ (-d.exponent).toNat ≤ d.digits * 10 ^ d.exponent.toNat := by
    rw [value_eq_div, zpow_natCast, le_div_iff₀ (by positivity)] at hvalue
    exact_mod_cast hvalue
  have hinf : d.toBinary64 = Binary64.infinity false := by
    rw [toBinary64_eq, if_neg hsmall]
    refine Binary64.ofUnits_of_le false (k := 1074 + 3 * n) (by positivity) (by omega) ?_
    calc 2 ^ (1074 + 3 * n) * 10 ^ (-d.exponent).toNat
        = 2 ^ (3 * n) * 10 ^ (-d.exponent).toNat * Binary64.unit := by
          rw [Binary64.two_pow_add_unit, Nat.mul_right_comm]
      _ ≤ 10 ^ n * 10 ^ (-d.exponent).toNat * Binary64.unit := by
          exact Nat.mul_le_mul_right _ (Nat.mul_le_mul_right _ (two_pow_le_ten_pow n))
      _ ≤ d.digits * 10 ^ d.exponent.toNat * Binary64.unit := by gcongr
  rw [hinf] at hfinite
  exact absurd hfinite (by decide)

lemma neg_lt_decimalExponent (x : Binary64) : -1074 < x.decimalExponent := by
  have hlength : (Nat.toDigits 10 ((Binary64.unit - 1) / x.scaledAbs)).length ≤ 1074 := by
    rw [Nat.length_toDigits_le_iff (by norm_num) (by norm_num)]
    calc (Binary64.unit - 1) / x.scaledAbs ≤ Binary64.unit - 1 := Nat.div_le_self _ _
      _ < Binary64.unit := Nat.sub_lt Binary64.unit_pos Nat.one_pos
      _ ≤ 10 ^ 1074 := by
        rw [Binary64.unit]
        generalize 1074 = k
        exact Nat.pow_le_pow_left (by norm_num) k
  unfold Binary64.decimalExponent
  dsimp only
  split_ifs <;> omega

/-- What is found on a grid has the exponent of the grid. -/
lemma exponent_of_onGrid {tie : Tie} {exponent : Int} (h : onGrid tie x exponent = some d) :
    d.exponent = exponent := by
  unfold onGrid at h
  dsimp only at h
  split_ifs at h <;> cases h <;> rfl

/-- A search does not go beyond its last grid. -/
lemma lt_exponent_of_search {tie : Tie} {leading : Int} {fuel digits : ℕ}
    (h : search tie x leading fuel digits = some d) :
    leading - (digits + fuel : ℕ) < d.exponent := by
  induction fuel generalizing digits with
  | zero => simp [search] at h
  | succ fuel ih =>
    rw [search, Option.or_eq_some_iff] at h
    rcases h with h | ⟨-, h⟩
    · rw [exponent_of_onGrid h]
      omega
    · have hrest := ih h
      omega

/-- The shortest decimal comes from one that reads as the number and has a bounded exponent. -/
lemma exists_shortest_eq (tie : Tie) (hx : x.IsPositive) :
    ∃ e : Decimal, shortest tie x = e.normalize ∧ e.toBinary64 = x ∧ -1100 < e.exponent := by
  obtain ⟨hfinite, hsign, hzero⟩ := hx
  unfold shortest
  cases h : search tie x x.decimalExponent 17 1 with
  | none =>
    have hexponent : (-1100 : Int) < -1074 := by norm_num
    exact ⟨exact x, rfl, toBinary64_exact hfinite hsign hzero, hexponent⟩
  | some e =>
    have hexponent := lt_exponent_of_search h
    have hplace := neg_lt_decimalExponent x
    exact ⟨e, rfl, toBinary64_of_search h, by omega⟩

/-- Dropping zeros makes no number greater. -/
lemma dropZeros_digits_le (fuel : ℕ) (d : Decimal) : (d.dropZeros fuel).digits ≤ d.digits := by
  induction fuel generalizing d with
  | zero => exact le_rfl
  | succ fuel ih =>
    rw [dropZeros]
    split_ifs
    · exact (ih _).trans (Nat.div_le_self _ _)
    · exact le_rfl

lemma length_toDigits_mono {m n : ℕ} (h : m ≤ n) :
    (Nat.toDigits 10 m).length ≤ (Nat.toDigits 10 n).length := by
  rw [Nat.length_toDigits_le_iff (by norm_num) Nat.length_toDigits_pos]
  exact h.trans_lt (lt_ten_pow_length n)

/-- A decimal that does not read as zero has a digit other than zero. -/
lemma digits_ne_zero_of_isZero (h : d.toBinary64.isZero = false) : d.digits ≠ 0 := by
  intro h0
  rw [toBinary64, Binary64.ofDecimal, if_pos (Or.inl h0)] at h
  exact absurd h (by decide)

/-- Neither the digits of the shortest decimal nor the places before them are many. -/
lemma shortest_bounds (tie : Tie) (hx : x.IsPositive) :
    (shortest tie x).digits ≠ 0 ∧ (Nat.toDigits 10 (shortest tie x).digits).length ≤ 1502 ∧
      (shortest tie x).leading.natAbs ≤ 401 := by
  obtain ⟨e, hshortest, hread, hexponent⟩ := exists_shortest_eq tie hx
  obtain ⟨hfinite, -, hzero⟩ := hx
  rw [← hread] at hfinite hzero
  have hne := digits_ne_zero_of_isZero hzero
  have hlow := le_leading hzero
  have hhigh := leading_lt (n := 401) (by norm_num) hne hfinite
  have hlength :
      (Nat.toDigits 10 e.normalize.digits).length ≤ (Nat.toDigits 10 e.digits).length := by
    rw [normalize, if_neg hne]
    exact length_toDigits_mono (dropZeros_digits_le _ e)
  have hplaces := e.exponent_eq
  rw [hshortest, leading_normalize hne]
  refine ⟨fun h0 => normalize_digits_mod_ten hne (by rw [h0]), by omega, by omega⟩

end Decimal

/-- A literal denotes its decimal. -/
lemma Decimal.value_of_isDecimal_literal {d e : Decimal} (h : Text.IsDecimal d.literal e) :
    e.value = d.value := by
  obtain ⟨e', hdecimal, hvalue, -⟩ := exists_isDecimal_literal d
  rw [← Text.readDecimal_eq_some_iff] at h hdecimal
  rw [Option.some.inj (h.symm.trans hdecimal), hvalue]

section

attribute [local instance] Platform.standard

/-- The literals of positive numbers denote decimals that read back as the numbers. -/
lemma Platform.tellsApart_standard : FloatPrinter.TellsApart := by
  refine ⟨fun x hx => ?_, fun x y hx hy d e hd he hvalue => ?_⟩
  · obtain ⟨hne, hlength, hleading⟩ := Decimal.shortest_bounds .toEven hx
    obtain ⟨e, hdecimal, hvalue, hexponent⟩ :=
      Decimal.exists_isDecimal_literal (Decimal.shortest .toEven x)
    have hliteral := Decimal.length_literal_le (Decimal.shortest .toEven x)
    have hplaces := (Decimal.shortest .toEven x).exponent_eq
    refine ⟨e, hdecimal, fun h0 => ?_, ?_⟩
    · have hpos := Decimal.value_pos hne
      rw [← hvalue, Decimal.value, h0] at hpos
      simp at hpos
    · change (Decimal.shortest .toEven x).literal.length + e.exponent.natAbs < 2 ^ 31
      omega
  · rw [Decimal.value_of_isDecimal_literal hd, Decimal.value_of_isDecimal_literal he] at hvalue
    have hround := Decimal.toBinary64_eq_of_value_eq hvalue
    rwa [Decimal.toBinary64_shortest .toEven hx.1 hx.2.1 hx.2.2,
      Decimal.toBinary64_shortest .toEven hy.1 hy.2.1 hy.2.2] at hround

end

end Dynval
