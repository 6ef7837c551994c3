import Mathlib.Data.Int.Log
import Mathlib.Data.Rat.Floor
import Dynval.Proofs.Decimal.Text

/-!
# The layout of numbers

A finite number other than zero is written from a literal of its absolute value, however that
literal is laid out. Its text denotes the same decimal (`Decimal.Writes`); the place of the first
digit decides between a point among the digits (`Decimal.IsPositional`) and one digit with an
exponent (`Decimal.IsScientific`), and neither has zeros that could be left out.
-/

namespace Dynval

namespace Decimal

/-! ### Layouts -/

/-- Digits before and behind a point. A zero stands first only when it is alone before the point,
and last only when it is alone behind it. -/
structure PositionalParts (whole fraction : List Char) : Prop where
  whole_ne_nil : whole ≠ []
  fraction_ne_nil : fraction ≠ []
  isDigit : ∀ c ∈ whole ++ fraction, c.isDigit
  head : whole.head? = some '0' → whole = ['0']
  last : fraction.getLast? = some '0' → fraction = ['0']

def IsPositional (cs : List Char) : Prop :=
  ∃ whole fraction, cs = whole ++ '.' :: fraction ∧ PositionalParts whole fraction

/-- A first digit, others behind it, and an exponent of two or more digits. Neither the first digit
nor the last of the others is zero, and the exponent begins with a zero only when it has two
digits. -/
structure ScientificParts (first : Char) (fraction exponent : List Char) : Prop where
  isDigit : ∀ c ∈ first :: (fraction ++ exponent), c.isDigit
  first_ne_zero : first ≠ '0'
  last : fraction.getLast? ≠ some '0'
  two_le : 2 ≤ exponent.length
  head : exponent.head? = some '0' → exponent.length = 2

/-- Whether characters are a number in scientific notation; there is a point only when digits stand
behind it. -/
def IsScientific (cs : List Char) : Prop :=
  ∃ first fraction sign exponent, (sign = '+' ∨ sign = '-') ∧
    cs = first :: ((if fraction = [] then [] else '.' :: fraction) ++ 'e' :: sign :: exponent) ∧
    ScientificParts first fraction exponent

/-- No text is in both notations. -/
lemma IsPositional.not_isScientific {cs : List Char} (h : IsPositional cs) : ¬ IsScientific cs := by
  rintro ⟨first, rest, sign, exponent, -, hcs, -⟩
  obtain ⟨whole, fraction, rfl, hparts⟩ := h
  have hmem : 'e' ∈ whole ++ '.' :: fraction := by simp [hcs]
  rw [List.mem_append, List.mem_cons] at hmem
  have hdigit : 'e' ∈ whole ++ fraction := by
    rcases hmem with hmem | hmem | hmem
    · exact List.mem_append_left _ hmem
    · exact absurd hmem (by decide)
    · exact List.mem_append_right _ hmem
  exact absurd (hparts.isDigit 'e' hdigit) (by decide)

/-! ### Digits -/

/-- Digits that begin and end with another digit than zero. -/
structure Significant (digits : List Char) : Prop where
  ne_nil : digits ≠ []
  isDigit : ∀ c ∈ digits, c.isDigit
  head : digits.head? ≠ some '0'
  last : digits.getLast? ≠ some '0'

/-- The digits of a number that ends in no zero are significant. -/
lemma significant_toDigits {n : ℕ} (hn : n % 10 ≠ 0) : Significant (Nat.toDigits 10 n) where
  ne_nil := Nat.toDigits_ne_nil
  isDigit := isDigit_of_mem_toDigits
  head := head?_toDigits_ne_zero (by omega)
  last := by simp [getLast?_toDigits, hn]

variable {digits : List Char}

/-- Significant digits with a point are a number in positional notation. -/
lemma Significant.isPositional (h : Significant digits) (leading : Int) :
    IsPositional (positional digits leading) := by
  unfold positional
  dsimp only
  split_ifs with hneg hlen
  · refine ⟨['0'], List.replicate (-leading - 1).toNat '0' ++ digits, by simp, ?_⟩
    refine ⟨by simp, by simp [h.ne_nil], ?_, fun _ => rfl, fun hlast => ?_⟩
    · simp only [List.forall_mem_append]
      exact ⟨by simp, isDigit_of_mem_zeros _, h.isDigit⟩
    · rw [List.getLast?_append_of_ne_nil _ h.ne_nil] at hlast
      exact absurd hlast h.last
  · refine ⟨digits ++ List.replicate (leading.toNat + 1 - digits.length) '0', ['0'], by simp, ?_⟩
    refine ⟨by simp [h.ne_nil], by simp, ?_, fun hhead => ?_, fun _ => rfl⟩
    · simp only [List.forall_mem_append]
      exact ⟨⟨h.isDigit, isDigit_of_mem_zeros _⟩, by simp⟩
    · rw [List.head?_append_of_ne_nil _ h.ne_nil] at hhead
      exact absurd hhead h.head
  · refine ⟨digits.take (leading.toNat + 1), digits.drop (leading.toNat + 1), by simp, ?_⟩
    have hdrop : digits.drop (leading.toNat + 1) ≠ [] := by simpa using hlen
    refine ⟨by simp [h.ne_nil], hdrop, ?_, fun hhead => ?_, fun hlast => ?_⟩
    · rw [List.take_append_drop]
      exact h.isDigit
    · rw [List.head?_take, if_neg (by omega)] at hhead
      exact absurd hhead h.head
    · rw [List.getLast?_drop, if_neg (by omega)] at hlast
      exact absurd hlast h.last

/-- An exponent is written as a sign and at least two digits, without a needless zero. -/
lemma exists_exponentText_eq (e : Int) :
    ∃ sign exponent, exponentText e = sign :: exponent ∧ (sign = '+' ∨ sign = '-') ∧
      (∀ c ∈ exponent, c.isDigit) ∧ 2 ≤ exponent.length ∧
      (exponent.head? = some '0' → exponent.length = 2) := by
  refine ⟨_, List.replicate (2 - (Nat.toDigits 10 e.natAbs).length) '0' ++
    Nat.toDigits 10 e.natAbs, rfl, ?_, ?_, ?_, ?_⟩
  · split_ifs <;> simp
  · rw [List.forall_mem_append]
    exact ⟨isDigit_of_mem_zeros _, isDigit_of_mem_toDigits⟩
  · rw [List.length_append, List.length_replicate]
    omega
  · intro hhead
    rcases Nat.lt_or_ge 2 (Nat.toDigits 10 e.natAbs).length with hlong | hshort
    · -- three digits are those of a positive number, which does not begin with a zero
      have hpos : 0 < e.natAbs := by
        by_contra hzero
        rw [Nat.eq_zero_of_not_pos hzero, Nat.toDigits_zero] at hlong
        simp at hlong
      rw [Nat.sub_eq_zero_of_le hlong.le, List.replicate_zero, List.nil_append] at hhead
      exact absurd hhead (head?_toDigits_ne_zero hpos)
    · rw [List.length_append, List.length_replicate]
      omega

/-- Significant digits with an exponent are a number in scientific notation. -/
lemma Significant.isScientific (h : Significant digits) (leading : Int) :
    IsScientific (scientific digits (exponentText leading)) := by
  obtain ⟨first, rest, rfl⟩ := List.exists_cons_of_ne_nil h.ne_nil
  obtain ⟨sign, exponent, htext, hsign, hexponent, htwo, hzero⟩ := exists_exponentText_eq leading
  obtain ⟨hfirst, hrest⟩ := List.forall_mem_cons.1 h.isDigit
  refine ⟨first, rest, sign, exponent, hsign, ?_, ?_, ?_, ?_, htwo, hzero⟩
  · rw [scientific, htext]
    cases rest <;> simp
  · rw [List.forall_mem_cons, List.forall_mem_append]
    exact ⟨hfirst, hrest, hexponent⟩
  · simpa using h.head
  · intro hlast
    refine h.last ?_
    rw [List.getLast?_cons, hlast]
    rfl

/-! ### The place of the first digit -/

variable {d : Decimal}

lemma value_pos (h : d.digits ≠ 0) : 0 < d.value := by
  have hpos : 0 < d.digits := Nat.pos_of_ne_zero h
  rw [value]
  positivity

/-- The decimal exponent of the first digit is the greatest power of ten within the number. -/
lemma log_value (h : d.digits ≠ 0) : Int.log 10 d.value = d.leading := by
  apply eq_of_forall_gt_iff
  intro k
  have hlt := Int.lt_zpow_iff_log_lt (b := 10) (x := k) (by norm_num) (value_pos h)
  rw [← hlt, Nat.cast_ofNat, value_lt_iff, leading]
  constructor
  · rintro (h0 | hk)
    · exact absurd h0 h
    · omega
  · intro hk
    exact Or.inr (by omega)

/-- Final zeros do not matter for the exponent of the first digit. -/
lemma leading_normalize (h : d.digits ≠ 0) : d.normalize.leading = d.leading := by
  have hne : d.normalize.digits ≠ 0 := fun h0 => normalize_digits_mod_ten h (by rw [h0])
  rw [← log_value hne, value_normalize, log_value h]

/-- The size of a number decides its notation. -/
lemma text_normalize_layout (h : d.digits ≠ 0) :
    (IsPositional d.normalize.text ↔ -4 ≤ Int.log 10 d.value ∧ Int.log 10 d.value < 16) ∧
      (IsScientific d.normalize.text ↔
        ¬(-4 ≤ Int.log 10 d.value ∧ Int.log 10 d.value < 16)) := by
  have hdigits := significant_toDigits (normalize_digits_mod_ten h)
  rw [log_value h]
  unfold text layout
  rw [leading_normalize h]
  split_ifs with hrange
  · have hpositional := hdigits.isPositional d.leading
    simp [hpositional, hpositional.not_isScientific, hrange]
  · have hscientific := hdigits.isScientific d.leading
    have hnot : ¬ IsPositional _ := fun hpositional => hpositional.not_isScientific hscientific
    simp [hscientific, hnot, hrange]

/-! ### The text of a number -/

/-- Whether characters write a decimal with its sign: they denote the same number, with a point
among the digits when the first digit has an exponent from -4 to 15, and with an exponent else. -/
def Writes (negative : Bool) (d : Decimal) (cs : List Char) : Prop :=
  ∃ body, cs = (if negative then ['-'] else []) ++ body ∧
    (∃ e, Text.IsDecimal body e ∧ e.value = d.value) ∧
    (IsPositional body ↔ -4 ≤ Int.log 10 d.value ∧ Int.log 10 d.value < 16) ∧
    (IsScientific body ↔ ¬(-4 ≤ Int.log 10 d.value ∧ Int.log 10 d.value < 16))

/-- The text of a decimal without its final zeros writes the decimal. -/
lemma writes_text_normalize (h : d.digits ≠ 0) (negative : Bool) :
    Writes negative d ((if negative then ['-'] else []) ++ d.normalize.text) := by
  obtain ⟨e, hread, hvalue⟩ := readDecimal_text d.normalize
  refine ⟨d.normalize.text, rfl, ⟨e, Text.readDecimal_eq_some_iff.1 hread, ?_⟩,
    text_normalize_layout h⟩
  rw [hvalue, value_normalize]

end Decimal

namespace Text

/-- A decimal literal behind at most a minus is read as the nearest float. -/
lemma readFloat_signed {body : List Char} {d : Decimal} (h : IsDecimal body d) (negative : Bool) :
    readFloat (String.ofList ((if negative then ['-'] else []) ++ body)) =
      some (Binary64.ofDecimal negative d.digits d.exponent) := by
  have hsign : IsSign (if negative then ['-'] else []) negative := by
    cases negative
    · exact .none
    · exact .minus
  have hunderscore : '_' ∉ body := fun hmem =>
    ne_underscore_of_isWordChar (h.isWordChar _ hmem) rfl
  refine readFloat_ofList (.decimal hsign (separatesDigits_of_not_mem hunderscore) ?_)
  rwa [plain_eq_self hunderscore]

/-- The sign of a number and digits of the same value as digits that read as its absolute value. -/
lemma readFloat_writes {x : Binary64} {d : Decimal} {cs : List Char}
    (h : Decimal.Writes x.isNegative d cs) (hd : d.toBinary64 = x.abs) :
    readFloat (String.ofList cs) = some x := by
  obtain ⟨body, rfl, ⟨e, hbody, hvalue⟩, -⟩ := h
  rw [readFloat_signed hbody, Binary64.ofDecimal_isNegative]
  rw [Decimal.toBinary64_eq_of_value_eq hvalue, hd]

end Text

namespace Binary64

variable {x : Binary64}

lemma isNaN_isInfinite_of_isFinite (hx : x.isFinite) : x.isNaN = false ∧ x.isInfinite = false := by
  simp only [isFinite, isNaN, isInfinite, decide_eq_true_eq, decide_eq_false_iff_not,
    beq_eq_false_iff_ne] at hx ⊢
  omega

/-- The digits of a literal are written in the layout of the decimal that it denotes. -/
lemma charsWith_eq {literal : Binary64 → List Char} {d : Decimal} (hx : x.isFinite)
    (hzero : x.isZero = false) (h : Decimal.IsLiteral (literal x.abs) d) :
    x.charsWith literal = (if x.isNegative then ['-'] else []) ++ d.normalize.text := by
  obtain ⟨hnan, hinf⟩ := isNaN_isInfinite_of_isFinite hx
  obtain ⟨hdigits, hleading⟩ := Decimal.significant_eq h
  rw [charsWith, hnan, hinf, hzero, Decimal.text, Decimal.leading_normalize h.digits_ne_zero,
    ← hdigits, ← hleading]
  rfl

/-- A finite number other than zero is written as a literal of its absolute value says, with its
sign: the text denotes the same decimal, is laid out by the place of the first digit, is read by
`Text.readFloat`, and reads back as the number when the literal reads as the absolute value. -/
theorem charsWith_writes_literal {literal : Binary64 → List Char} {d : Decimal} (hx : x.isFinite)
    (hzero : x.isZero = false) (h : Decimal.IsLiteral (literal x.abs) d) :
    Decimal.Writes x.isNegative d (x.charsWith literal) ∧
      (Text.readFloat (String.ofList (x.charsWith literal))).isSome ∧
      (Text.readFloat (String.ofList (literal x.abs)) = some x.abs →
        Text.readFloat (String.ofList (x.charsWith literal)) = some x) := by
  have hwrites := Decimal.writes_text_normalize h.digits_ne_zero x.isNegative
  rw [← charsWith_eq hx hzero h] at hwrites
  refine ⟨hwrites, ?_, fun hread => Text.readFloat_writes hwrites ?_⟩
  · obtain ⟨body, htext, ⟨e, hbody, -⟩, -⟩ := hwrites
    rw [htext, Text.readFloat_signed hbody]
    rfl
  · have hliteral := Text.readFloat_signed h.isDecimal false
    exact Option.some.inj (hliteral.symm.trans hread)

/-- The number nearest to a hundred-thousandth comes as digits behind a point and is written with an
exponent. -/
theorem charsWith_hundred_thousandth :
    let x : Binary64 := ⟨0xbee4f8b588e368f1⟩
    let literal : Binary64 → List Char := fun _ => "0.00001".toList
    x.charsWith literal = "-1e-05".toList ∧
      Decimal.Writes true ⟨1, -5⟩ (x.charsWith literal) ∧
      Text.readFloat (String.ofList (x.charsWith literal)) = some x := by
  intro x literal
  have hliteral : Decimal.IsLiteral (literal x.abs) ⟨1, -5⟩ :=
    ⟨Text.readDecimal_eq_some_iff.1 (by decide), by decide, by decide⟩
  obtain ⟨hwrites, -, hback⟩ := charsWith_writes_literal (by decide) (by decide) hliteral
  exact ⟨by decide, hwrites, hback (by decide +kernel)⟩

end Binary64

end Dynval
