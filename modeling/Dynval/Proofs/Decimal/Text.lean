import Mathlib.Data.List.DropRight
import Dynval.Decimal.Text
import Dynval.Proofs.Decimal.Value
import Dynval.Proofs.Text.Float

/-!
# The text of decimals

A decimal literal is taken apart into its digits without zeros at either end and the place of the
first of them (`significant_eq`), and put together again in another layout. What comes out reads
back as a decimal of the same value (`readDecimal_text`), whether it is positional or scientific.
-/

namespace Dynval

namespace Decimal

variable {d : Decimal}

/-! ### Exponents -/

/-- Zeros in front of digits do not change the integer that is read. -/
lemma signed?_append_toDigits {sign : List Char} {negative : Bool}
    (hsign : Text.IsSign sign negative) (k n : ℕ) :
    Text.signed? (sign ++ (List.replicate k '0' ++ Nat.toDigits 10 n)) =
      some (if negative then -(n : Int) else n) := by
  have hvalue : Text.decimalValue (List.replicate k '0' ++ Nat.toDigits 10 n) = n := by
    rw [← Text.ofDigitChars_eq_decimalValue, Nat.ofDigitChars_append,
      Nat.ofDigitChars_replicate_zero, Nat.mul_zero, Nat.ofDigitChars_ten_toDigits]
  rw [Text.signed?_append hsign (by simp [Nat.toDigits_ne_nil])
    (List.forall_mem_append.2 ⟨isDigit_of_mem_zeros k, isDigit_of_mem_toDigits⟩), hvalue]

/-- An exponent is read back. -/
lemma signed?_exponentText (e : Int) : Text.signed? (exponentText e) = some e := by
  unfold exponentText
  split_ifs with he
  · refine (signed?_append_toDigits .minus _ e.natAbs).trans (congrArg some ?_)
    simp only [if_true]
    omega
  · refine (signed?_append_toDigits .plus _ e.natAbs).trans (congrArg some ?_)
    simp only [Bool.false_eq_true, if_false]
    omega

/-- The digits of an integer are read back. -/
lemma signed?_intChars (i : Int) : Text.signed? (intChars i) = some i := by
  unfold intChars
  split_ifs with hi
  · refine (signed?_append_toDigits .minus 0 i.natAbs).trans (congrArg some ?_)
    simp only [if_true]
    omega
  · refine (signed?_append_toDigits .none 0 i.natAbs).trans (congrArg some ?_)
    simp only [Bool.false_eq_true, if_false]
    omega

/-! ### Reading layouts -/

lemma mk_eq {d : Decimal} {n : ℕ} {e : Int} (hn : n = d.digits) (he : e = d.exponent) :
    (⟨n, e⟩ : Decimal) = d := by
  rw [hn, he]

/-- Digits with a point, `leading` being the decimal exponent of the first digit. -/
lemma readDecimal_positional {d : Decimal} {digits : List Char} {leading : Int}
    (hdigits : ∀ c ∈ digits, c.isDigit) (hpos : 0 < digits.length)
    (hvalue : Nat.ofDigitChars 10 digits 0 = d.digits)
    (hexponent : d.exponent = leading + 1 - digits.length) :
    ∃ e : Decimal, Text.readDecimal (positional digits leading) = some e ∧ e.value = d.value := by
  unfold positional
  dsimp only
  split_ifs with hneg hlen
  · -- the digits stand behind the point and some zeros
    have htext : ['0', '.'] ++ List.replicate (-leading - 1).toNat '0' ++ digits =
        ['0'] ++ '.' :: ((List.replicate (-leading - 1).toNat '0' ++ digits) ++ []) := by simp
    refine ⟨d, ?_, rfl⟩
    rw [htext, Text.readDecimal_point (by simp) (by simp)
      (List.forall_mem_append.2 ⟨isDigit_of_mem_zeros _, hdigits⟩) (by simp), Text.readExponent,
      Option.map_some, Option.some.injEq]
    apply mk_eq
    · simp [Nat.ofDigitChars_append, Nat.ofDigitChars_cons, Nat.ofDigitChars_replicate_zero, hvalue]
    · rw [List.length_append, List.length_replicate]
      omega
  · -- the digits stand before the point, with zeros behind them
    have htext : digits ++ List.replicate (leading.toNat + 1 - digits.length) '0' ++ ['.', '0'] =
        (digits ++ List.replicate (leading.toNat + 1 - digits.length) '0') ++
          '.' :: (['0'] ++ []) := by simp
    rw [htext, Text.readDecimal_point (by simp [List.ne_nil_of_length_pos hpos])
      (List.forall_mem_append.2 ⟨hdigits, isDigit_of_mem_zeros _⟩) (by simp) (by simp),
      Text.readExponent, Option.map_some]
    refine ⟨_, rfl, ?_⟩
    have hplaces : d.exponent = (leading.toNat + 1 - digits.length : ℕ) := by omega
    simp only [Nat.ofDigitChars_append, Nat.ofDigitChars_cons, Nat.ofDigitChars_replicate_zero,
      Nat.ofDigitChars_nil, hvalue, value, hplaces, zpow_natCast]
    push_cast
    simp only [List.length_singleton, Nat.cast_one, zero_sub, zpow_neg_one]
    ring
  · have htext : digits.take (leading.toNat + 1) ++ ['.'] ++ digits.drop (leading.toNat + 1) =
        digits.take (leading.toNat + 1) ++ '.' :: (digits.drop (leading.toNat + 1) ++ []) := by simp
    refine ⟨d, ?_, rfl⟩
    rw [htext, Text.readDecimal_point (by simp [List.ne_nil_of_length_pos hpos])
      (fun c hc => hdigits c (List.mem_of_mem_take hc))
      (fun c hc => hdigits c (List.mem_of_mem_drop hc)) (by simp), Text.readExponent,
      Option.map_some, Option.some.injEq]
    apply mk_eq
    · rw [List.take_append_drop, hvalue]
    · rw [List.length_drop]
      omega

/-- One digit, the others behind a point, and an exponent that reads as `leading`. -/
lemma readDecimal_scientific {digits exponent : List Char} {leading : Int}
    (hdigits : ∀ c ∈ digits, c.isDigit) (hpos : 0 < digits.length)
    (hvalue : Nat.ofDigitChars 10 digits 0 = d.digits)
    (hexponent : d.exponent = leading + 1 - digits.length)
    (hread : Text.signed? exponent = some leading) :
    Text.readDecimal (scientific digits exponent) = some d := by
  have he : ∀ c ∈ ('e' :: exponent).head?, c.isDigit = false ∧ c ≠ '.' := by simp
  have hmark : Text.readExponent ('e' :: exponent) = some leading := by
    rw [Text.readExponent, if_pos (Or.inl rfl), hread]
  unfold scientific
  split_ifs with hlen
  · rw [List.take_of_length_le hlen, List.append_nil,
      Text.readDecimal_whole (List.ne_nil_of_length_pos hpos) hdigits he, hmark, Option.map_some,
      Option.some.injEq]
    exact mk_eq hvalue (by omega)
  · have htext : digits.take 1 ++ '.' :: digits.drop 1 ++ 'e' :: exponent =
        digits.take 1 ++ '.' :: (digits.drop 1 ++ 'e' :: exponent) := by simp
    rw [htext, Text.readDecimal_point (by simp [List.ne_nil_of_length_pos hpos])
      (fun c hc => hdigits c (List.mem_of_mem_take hc))
      (fun c hc => hdigits c (List.mem_of_mem_drop hc)) (fun c hc => (he c hc).1), hmark,
      Option.map_some, Option.some.injEq]
    apply mk_eq
    · rw [List.take_append_drop, hvalue]
    · rw [List.length_drop]
      omega

/-- The digits of a decimal in the layout that its first digit asks for. -/
def text (d : Decimal) : List Char :=
  layout (Nat.toDigits 10 d.digits) d.leading

/-- The exponent of the last digit follows from that of the first and the number of digits. -/
lemma exponent_eq (d : Decimal) :
    d.exponent = d.leading + 1 - (Nat.toDigits 10 d.digits).length := by
  unfold leading
  omega

/-- The text of a decimal is a literal of the same value. -/
lemma readDecimal_text (d : Decimal) :
    ∃ e : Decimal, Text.readDecimal d.text = some e ∧ e.value = d.value := by
  have hvalue : Nat.ofDigitChars 10 (Nat.toDigits 10 d.digits) 0 = d.digits :=
    Nat.ofDigitChars_ten_toDigits
  unfold text layout
  split_ifs
  · exact readDecimal_positional isDigit_of_mem_toDigits Nat.length_toDigits_pos hvalue
      d.exponent_eq
  · exact ⟨d, readDecimal_scientific isDigit_of_mem_toDigits Nat.length_toDigits_pos hvalue
      d.exponent_eq (signed?_exponentText _), rfl⟩

/-! ### Taking literals apart -/

/-- A decimal digit is the character of its value. -/
lemma digitChar_sub_of_isDigit {c : Char} (h : c.isDigit) :
    c.toNat - '0'.toNat < 10 ∧ Nat.digitChar (c.toNat - '0'.toNat) = c := by
  obtain ⟨hlow, hhigh⟩ := Char.isDigit_iff_toNat.1 h
  simp only [Char.reduceToNat] at hlow hhigh ⊢
  refine ⟨by omega, Char.toNat_inj.1 ?_⟩
  rw [Nat.toNat_digitChar_of_lt_ten (by omega)]
  omega

/-- Digits behind those of a positive number make the digits of a greater one. -/
lemma toDigits_append_digits {n : ℕ} {ds : List Char} (hn : 0 < n) (hds : ∀ c ∈ ds, c.isDigit) :
    Nat.toDigits 10 n ++ ds = Nat.toDigits 10 (Nat.ofDigitChars 10 ds n) := by
  induction ds generalizing n with
  | nil => rw [List.append_nil, Nat.ofDigitChars_nil]
  | cons c ds ih =>
    obtain ⟨hc, hds⟩ := List.forall_mem_cons.1 hds
    obtain ⟨hlt, hchar⟩ := digitChar_sub_of_isDigit hc
    have hnext := Nat.toDigits_append_toDigits (b := 10) (by norm_num) hn hlt
    rw [Nat.toDigits_of_lt_base hlt, hchar] at hnext
    rw [Nat.ofDigitChars_cons, ← ih (by omega) hds, ← hnext, List.append_assoc,
      List.singleton_append]

/-- Without the zeros in front, digits are those of the number that they denote. -/
lemma dropWhile_zero_eq {ds : List Char} (hds : ∀ c ∈ ds, c.isDigit)
    (hne : Nat.ofDigitChars 10 ds 0 ≠ 0) :
    ds.dropWhile (· == '0') = Nat.toDigits 10 (Nat.ofDigitChars 10 ds 0) := by
  induction ds with
  | nil => exact absurd Nat.ofDigitChars_nil hne
  | cons c ds ih =>
    obtain ⟨hc, htail⟩ := List.forall_mem_cons.1 hds
    obtain ⟨hlt, hchar⟩ := digitChar_sub_of_isDigit hc
    rw [Nat.ofDigitChars_cons, Nat.mul_zero, Nat.zero_add] at hne ⊢
    by_cases hzero : c = '0'
    · subst hzero
      exact ih htail hne
    · have hpos : 0 < c.toNat - '0'.toNat := by
        refine Nat.pos_of_ne_zero fun h0 => hzero ?_
        rw [← hchar, h0]
        rfl
      rw [List.dropWhile_cons_of_neg (by simpa using hzero), ← toDigits_append_digits hpos htail,
        Nat.toDigits_of_lt_base hlt, hchar, List.singleton_append]

/-- Dropping the final zeros of the digits is dropping them from the number. -/
lemma rdropWhile_zero_eq {fuel : ℕ} (hne : d.digits ≠ 0) (hlt : d.digits < 10 ^ fuel) :
    (Nat.toDigits 10 d.digits).rdropWhile (· == '0') =
      Nat.toDigits 10 (d.dropZeros fuel).digits := by
  induction fuel generalizing d with
  | zero => exact absurd (Nat.lt_one_iff.1 (by simpa using hlt)) hne
  | succ fuel ih =>
    rw [dropZeros]
    split_ifs with h
    · have hdiv : d.digits / 10 < 10 ^ fuel := by
        rw [pow_succ] at hlt
        exact Nat.div_lt_of_lt_mul (by omega)
      have hzero : (Nat.digitChar (d.digits % 10) == '0') = true := by rw [h]; rfl
      rw [← ih (d := ⟨d.digits / 10, d.exponent + 1⟩) (by dsimp only; omega) hdiv,
        Nat.toDigits_of_base_le (by norm_num) (by omega),
        List.rdropWhile_concat_pos (· == '0') _ _ hzero]
    · rw [List.rdropWhile_eq_self_iff]
      intro hnil
      have hlast := getLast?_toDigits d.digits
      rw [List.getLast?_eq_some_getLast hnil, Option.some.injEq] at hlast
      simpa [hlast] using h

/-- Whether characters are a literal of a decimal other than zero, where 32 bits hold the number of
characters together with the exponent. -/
structure IsLiteral (cs : List Char) (d : Decimal) : Prop where
  isDecimal : Text.IsDecimal cs d
  digits_ne_zero : d.digits ≠ 0
  fits : cs.length + d.exponent.natAbs < 2 ^ 31

/-- What stands behind the mark of an exponent, as a 32-bit integer; zero if there is none. -/
lemma exponent_of_splitAt? {mantissa exponent : List Char} {e : Int}
    (hmantissa : ∀ c ∈ mantissa, (c == 'e' || c == 'E') = false)
    (hexponent : Text.IsExponent exponent e) (hlow : -2 ^ 31 ≤ e) (hhigh : e < 2 ^ 31) :
    ∃ behind, Text.splitAt? (fun c => c == 'e' || c == 'E') (mantissa ++ exponent) =
        (mantissa, behind) ∧
      (behind.bind fun cs => (Text.signed? cs).bind Text.toInt32?).getD 0 = Int32.ofInt e := by
  cases hexponent with
  | none =>
    refine ⟨none, ?_, rfl⟩
    rw [List.append_nil, Text.splitAt?_of_forall hmantissa]
  | @some mark sign digits negative hmark hsign hne hdigits =>
    refine ⟨_, Text.splitAt?_append hmantissa (by simpa using hmark), ?_⟩
    rw [Option.bind_some, Text.signed?_append hsign hne hdigits, Option.bind_some, Text.toInt32?,
      if_pos ⟨hlow, Int.le_of_lt_add_one hhigh⟩, Option.getD_some]

/-- The digits behind a point are found at the point. -/
lemma splitAt?_point {whole point fraction : List Char} (hwhole : ∀ c ∈ whole, c.isDigit)
    (hpoint : Text.IsFraction point fraction) :
    ∃ behind : Option (List Char),
      Text.splitAt? (· == '.') (whole ++ point) = (whole, behind) ∧ behind.getD [] = fraction := by
  have hdigits : ∀ {ds : List Char}, (∀ c ∈ ds, c.isDigit) → ∀ c ∈ ds, (c == '.') = false := by
    intro ds hds c hc
    rw [beq_eq_false_iff_ne]
    rintro rfl
    exact absurd (hds _ hc) (by decide)
  cases hpoint with
  | none =>
    refine ⟨none, ?_, rfl⟩
    rw [List.append_nil, Text.splitAt?_of_forall (hdigits hwhole)]
  | point => exact ⟨_, Text.splitAt?_append (hdigits hwhole) (by decide), rfl⟩

/-- The digits and the place of the first of them are those of the decimal that a literal
denotes. -/
lemma significant_eq {cs : List Char} (h : IsLiteral cs d) :
    (significant cs).1 = Nat.toDigits 10 d.normalize.digits ∧
      (significant cs).2.toInt = d.leading := by
  obtain ⟨⟨whole, point, fraction, exponent, e, hwhole, hpoint, -, hexponent, rfl, rfl⟩, hne, hfits⟩
    := h
  have hlength : fraction.length ≤ point.length := by
    cases hpoint <;> simp
  simp only [List.length_append] at hfits
  have hdigits : ∀ c ∈ whole ++ fraction, c.isDigit := by
    cases hpoint with
    | none => simpa using hwhole
    | point hfraction => exact List.forall_mem_append.2 ⟨hwhole, hfraction⟩
  have hmantissa : ∀ c ∈ whole ++ point, (c == 'e' || c == 'E') = false := by
    have hchars : ∀ c ∈ whole ++ point, c.isDigit ∨ c = '.' := by
      cases hpoint with
      | none => exact fun c hc => Or.inl (hwhole c (by simpa using hc))
      | point hfraction =>
        rw [List.forall_mem_append, List.forall_mem_cons]
        exact ⟨fun c hc => Or.inl (hwhole c hc), Or.inr rfl, fun c hc => Or.inl (hfraction c hc)⟩
    intro c hc
    simp only [Bool.or_eq_false_iff, beq_eq_false_iff_ne]
    constructor <;> rintro rfl <;> exact absurd (hchars _ hc) (by decide)
  obtain ⟨behind, hmark, hshift⟩ := exponent_of_splitAt? hmantissa hexponent (by omega) (by omega)
  obtain ⟨after, hsplit, hfraction⟩ := splitAt?_point hwhole hpoint
  rw [← Text.ofDigitChars_eq_decimalValue] at hne ⊢
  have hstripped := dropWhile_zero_eq hdigits hne
  have hlast := rdropWhile_zero_eq (d := ⟨_, e - fraction.length⟩) hne (lt_ten_pow_length _)
  simp only [significant, hmark, hshift, hsplit, hfraction, hstripped]
  constructor
  · rw [normalize, if_neg hne, ← hlast]
    rfl
  · have hle := (List.dropWhile_sublist (l := whole ++ fraction) (· == '0')).length_le
    have hpos := Nat.length_toDigits_pos (b := 10) (n := Nat.ofDigitChars 10 (whole ++ fraction) 0)
    rw [hstripped, List.length_append] at hle
    simp only [leading]
    generalize (Nat.toDigits 10 (Nat.ofDigitChars 10 (whole ++ fraction) 0)).length = n at *
    -- the places before the first digit are counted from the point, and shifted by the exponent
    have hplace : (n : Int) + (e - fraction.length) - 1 =
        whole.length - ((whole ++ fraction).length - n : ℕ) - 1 + e := by
      rw [List.length_append]
      omega
    rw [← Int32.ofInt_eq_ofNat, ← Int32.ofInt_eq_ofNat, ← Int32.ofInt_sub,
      show (1 : Int32) = Int32.ofInt 1 from rfl, ← Int32.ofInt_sub, ← Int32.ofInt_add, ← hplace]
    exact Int32.toInt_ofInt_of_le (by omega) (by omega)

end Decimal

end Dynval
