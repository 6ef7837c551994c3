import Dynval.Proofs.Decimal.Layout

/-!
# The text of binary64 numbers

The text of a number is a word, whatever literals the printer gives. If the literals of positive
numbers are decimal literals that denote different decimals (`FloatPrinter.TellsApart`), the texts
of numbers tell them apart, but for the bits of a NaN (`Binary64.mergeNaN_eq_of_textChars_eq`).
-/

namespace Dynval

namespace Decimal

lemma isWordChar_of_isLiteralChar {c : Char} (h : isLiteralChar c) : Text.isWordChar c := by
  simp only [isLiteralChar, Bool.or_eq_true, beq_iff_eq] at h
  rcases h with ((h | rfl) | rfl) | rfl
  · exact Text.isWordChar_of_isDigit h
  all_goals decide

/-- Splitting makes no characters. -/
lemma mem_of_mem_splitAt? {p : Char → Bool} {cs : List Char} {c : Char}
    (h : c ∈ (Text.splitAt? p cs).1 ∨ c ∈ (Text.splitAt? p cs).2.getD []) : c ∈ cs := by
  unfold Text.splitAt? at h
  split at h
  · simpa using h
  · rename_i d rest hdrop
    have hrest : c ∈ rest → c ∈ cs := fun hc =>
      (List.dropWhile_sublist _).subset (hdrop ▸ List.mem_cons_of_mem d hc)
    exact h.elim (fun hc => (List.takeWhile_sublist _).subset hc) hrest

/-- The digits of a literal are characters of it. -/
lemma mem_of_mem_significant {cs : List Char} {c : Char} (h : c ∈ (significant cs).1) : c ∈ cs := by
  have hall := (List.dropWhile_sublist _).subset
    (List.mem_reverse.1 ((List.dropWhile_sublist _).subset (List.mem_reverse.1 h)))
  exact mem_of_mem_splitAt? (Or.inl (mem_of_mem_splitAt? (List.mem_append.1 hall)))

lemma isWordChar_exponentText {e : Int} : ∀ c ∈ exponentText e, Text.isWordChar c := by
  intro c hc
  simp only [exponentText, List.cons_append, List.mem_cons, List.mem_append] at hc
  rcases hc with rfl | hc | hc
  · split_ifs <;> decide
  · exact Text.isWordChar_of_isDigit (isDigit_of_mem_zeros _ c hc)
  · exact Text.isWordChar_of_isDigit (isDigit_of_mem_toDigits c hc)

variable {digits : List Char}

/-- A layout of word characters adds only word characters. -/
lemma isWordChar_layout (hdigits : ∀ c ∈ digits, Text.isWordChar c) (leading : Int) :
    ∀ c ∈ layout digits leading, Text.isWordChar c := by
  intro c hc
  unfold layout at hc
  split_ifs at hc
  · rcases mem_positional hc with hc | rfl | rfl
    · exact hdigits c hc
    all_goals decide
  · rcases mem_scientific hc with hc | rfl | rfl | hc
    · exact hdigits c hc
    · decide
    · decide
    · exact isWordChar_exponentText c hc

/-- A point or an exponent stands in every layout. -/
lemma exists_mem_layout (digits : List Char) (leading : Int) :
    ∃ c ∈ layout digits leading, c = '.' ∨ c = 'e' := by
  unfold layout
  split_ifs
  · refine ⟨'.', ?_, Or.inl rfl⟩
    unfold positional
    dsimp only
    split_ifs <;> simp
  · exact ⟨'e', by simp [scientific], Or.inr rfl⟩

/-- The text of a decimal starts with a digit. -/
lemma exists_text_eq_cons (d : Decimal) : ∃ c cs, d.text = c :: cs ∧ c.isDigit := by
  obtain ⟨c, cs, hcs⟩ := List.exists_cons_of_ne_nil (Nat.toDigits_ne_nil (n := d.digits) (b := 10))
  have hc : c.isDigit := isDigit_of_mem_toDigits c (hcs ▸ List.mem_cons_self)
  unfold text layout
  rw [hcs]
  split_ifs
  · unfold positional
    dsimp only
    split_ifs
    · exact ⟨'0', _, rfl, by decide⟩
    · exact ⟨c, _, rfl, hc⟩
    · exact ⟨c, _, rfl, hc⟩
  · exact ⟨c, _, rfl, hc⟩

end Decimal

namespace Binary64

variable {x y : Binary64}

/-! ### Texts are words -/

section Words

variable [FloatPrinter]

/-- All NaNs have one text. -/
lemma textChars_of_isNaN (hx : x.isNaN) : x.textChars = ['n', 'a', 'n'] := by
  unfold textChars charsWith
  rw [hx, if_pos rfl]

/-- The characters of a number that is no NaN, without the sign. -/
def unsignedChars (x : Binary64) : List Char :=
  if x.isInfinite then ['i', 'n', 'f']
  else if x.isZero then ['0', '.', '0']
  else
    let (digits, leading) := Decimal.significant (FloatPrinter.literal x.abs)
    Decimal.layout digits leading.toInt

/-- The text of a number is its sign before the text of its absolute value. -/
lemma textChars_eq (hx : x.isNaN = false) :
    x.textChars = (if x.isNegative then ['-'] else []) ++ x.unsignedChars := by
  unfold textChars charsWith unsignedChars
  dsimp only
  rw [hx, if_neg Bool.false_ne_true]
  split_ifs <;> rfl

lemma isWordChar_unsignedChars (x : Binary64) : ∀ c ∈ x.unsignedChars, Text.isWordChar c := by
  unfold unsignedChars
  split_ifs
  · exact List.all_eq_true.1 (by decide)
  · exact List.all_eq_true.1 (by decide)
  · exact Decimal.isWordChar_layout (fun c hc => Decimal.isWordChar_of_isLiteralChar
      (FloatPrinter.isLiteralChar_literal _ c (Decimal.mem_of_mem_significant hc))) _

/-- The text of a number is a word, so that what follows it shows where it ends. -/
lemma isWordChar_textChars (x : Binary64) : ∀ c ∈ x.textChars, Text.isWordChar c := by
  cases hx : x.isNaN with
  | true =>
    rw [textChars_of_isNaN hx]
    exact List.all_eq_true.1 (by decide)
  | false =>
    rw [textChars_eq hx, List.forall_mem_append]
    refine ⟨?_, isWordChar_unsignedChars x⟩
    cases x.isNegative <;> exact List.all_eq_true.1 (by decide)

/-- The text of a number has a letter or a point in it. -/
lemma exists_mem_textChars (x : Binary64) :
    ∃ c ∈ x.textChars, c.isDigit = false ∧ c ≠ '-' := by
  cases hx : x.isNaN with
  | true => exact ⟨'n', by simp [textChars_of_isNaN hx], by decide, by decide⟩
  | false =>
    have hbody : ∃ c ∈ x.unsignedChars, c.isDigit = false ∧ c ≠ '-' := by
      unfold unsignedChars
      split_ifs
      · exact ⟨'i', by simp, by decide, by decide⟩
      · exact ⟨'.', by simp, by decide, by decide⟩
      · obtain ⟨c, hmem, hc⟩ := Decimal.exists_mem_layout _ _
        refine ⟨c, hmem, ?_⟩
        rcases hc with rfl | rfl <;> decide
    obtain ⟨c, hmem, hc⟩ := hbody
    exact ⟨c, by rw [textChars_eq hx]; exact List.mem_append_right _ hmem, hc⟩

end Words

/-! ### Numbers up to the bits of a NaN -/

/-- The number with the bits of a NaN forgotten. -/
def mergeNaN (x : Binary64) : Binary64 :=
  if x.isNaN then nan else x

/-- The text does not tell NaNs apart. -/
lemma textChars_mergeNaN [FloatPrinter] (x : Binary64) : x.mergeNaN.textChars = x.textChars := by
  unfold mergeNaN
  split_ifs with hx
  · rw [textChars_of_isNaN hx, textChars_of_isNaN (by decide)]
  · rfl

/-! ### Texts of different numbers -/

/-- Whether a number is finite and greater than zero. -/
def IsPositive (x : Binary64) : Prop :=
  x.isFinite ∧ x.isNegative = false ∧ x.isZero = false

lemma isPositive_abs (hnan : x.isNaN = false) (hinf : x.isInfinite = false)
    (hzero : x.isZero = false) : x.abs.IsPositive := by
  have hmagnitude : x.abs.magnitude = x.magnitude :=
    magnitude_ofMagnitude false (magnitude_lt x)
  refine ⟨?_, isNegative_ofMagnitude false (magnitude_lt x), ?_⟩
  · simp only [isNaN, isInfinite, isFinite, hmagnitude, decide_eq_false_iff_not,
      beq_eq_false_iff_ne, decide_eq_true_eq] at hnan hinf ⊢
    omega
  · simpa [isZero, hmagnitude] using hzero

/-- A number is its sign and its absolute value. -/
lemma eq_of_abs_eq (hsign : x.isNegative = y.isNegative) (habs : x.abs = y.abs) : x = y := by
  have hmagnitude := congrArg magnitude habs
  rw [abs, abs, magnitude_ofMagnitude _ (magnitude_lt x),
    magnitude_ofMagnitude _ (magnitude_lt y)] at hmagnitude
  rw [← ofMagnitude_magnitude x, hsign, hmagnitude, ofMagnitude_magnitude]

end Binary64

/-- What a printer promises: the literal of a positive number denotes a positive decimal, and those
of two numbers denote different ones. -/
structure FloatPrinter.TellsApart [FloatPrinter] : Prop where
  isLiteral : ∀ x : Binary64, x.IsPositive → ∃ d, Decimal.IsLiteral (literal x) d
  eq_of_value : ∀ x y : Binary64, x.IsPositive → y.IsPositive → ∀ d e,
    Text.IsDecimal (literal x) d → Text.IsDecimal (literal y) e → d.value = e.value → x = y

namespace Binary64

variable [FloatPrinter] {x y : Binary64}

/-- The text of a positive finite number is that of the decimal which its literal denotes. -/
lemma unsignedChars_eq_text (hprinter : FloatPrinter.TellsApart) (hnan : x.isNaN = false)
    (hinf : x.isInfinite = false) (hzero : x.isZero = false) :
    ∃ d, Decimal.IsLiteral (FloatPrinter.literal x.abs) d ∧ x.unsignedChars = d.normalize.text := by
  obtain ⟨d, hd⟩ := hprinter.isLiteral x.abs (isPositive_abs hnan hinf hzero)
  obtain ⟨hdigits, hleading⟩ := Decimal.significant_eq hd
  refine ⟨d, hd, ?_⟩
  simp only [unsignedChars, hinf, hzero, hdigits, hleading, Bool.false_eq_true, if_false]
  rw [Decimal.text, Decimal.leading_normalize hd.digits_ne_zero]

/-- Without its sign, a number begins with a letter if it is infinite and with a digit else. -/
lemma exists_unsignedChars_eq_cons (hprinter : FloatPrinter.TellsApart) (hnan : x.isNaN = false) :
    ∃ c cs, x.unsignedChars = c :: cs ∧ if x.isInfinite then c = 'i' else c.isDigit := by
  cases hinf : x.isInfinite with
  | true => exact ⟨'i', ['n', 'f'], by simp [unsignedChars, hinf], rfl⟩
  | false =>
    cases hzero : x.isZero with
    | true => exact ⟨'0', ['.', '0'], by simp [unsignedChars, hinf, hzero], rfl⟩
    | false =>
      obtain ⟨d, -, htext⟩ := unsignedChars_eq_text hprinter hnan hinf hzero
      obtain ⟨c, cs, hcs, hc⟩ := Decimal.exists_text_eq_cons d.normalize
      exact ⟨c, cs, htext.trans hcs, hc⟩

/-- The text of a number begins with a digit, a minus sign or one of the letters of `inf` and
`nan`. -/
lemma exists_textChars_eq_cons (hprinter : FloatPrinter.TellsApart) (x : Binary64) :
    ∃ c cs, x.textChars = c :: cs ∧ (c = 'n' ∨ c = 'i' ∨ c = '-' ∨ c.isDigit) := by
  cases hx : x.isNaN with
  | true => exact ⟨'n', _, textChars_of_isNaN hx, Or.inl rfl⟩
  | false =>
    rw [textChars_eq hx]
    cases x.isNegative with
    | true => exact ⟨'-', _, rfl, by simp⟩
    | false =>
      obtain ⟨c, cs, hcs, hc⟩ := exists_unsignedChars_eq_cons hprinter hx
      refine ⟨c, cs, hcs, ?_⟩
      split_ifs at hc
      · exact Or.inr (Or.inl hc)
      · exact Or.inr (Or.inr (Or.inr hc))

/-- The value that the unsigned text of a finite number denotes. -/
lemma exists_readDecimal_unsignedChars (hprinter : FloatPrinter.TellsApart) (hnan : x.isNaN = false)
    (hinf : x.isInfinite = false) :
    ∃ e, Text.readDecimal x.unsignedChars = some e ∧
      if x.isZero then e.value = 0
      else ∃ d, Decimal.IsLiteral (FloatPrinter.literal x.abs) d ∧ e.value = d.value := by
  cases hzero : x.isZero with
  | true =>
    refine ⟨⟨0, -1⟩, ?_, by simp [Decimal.value]⟩
    simp only [unsignedChars, hinf, hzero, Bool.false_eq_true, if_false, if_true]
    decide
  | false =>
    obtain ⟨d, hd, htext⟩ := unsignedChars_eq_text hprinter hnan hinf hzero
    obtain ⟨e, hread, hvalue⟩ := Decimal.readDecimal_text d.normalize
    refine ⟨e, by rw [htext, hread], d, hd, ?_⟩
    rw [hvalue, Decimal.value_normalize]

/-- A text of digits is not that of an infinity. -/
lemma isInfinite_eq_of_unsignedChars (hprinter : FloatPrinter.TellsApart) (hx : x.isNaN = false)
    (hy : y.isNaN = false) (h : x.unsignedChars = y.unsignedChars) :
    x.isInfinite = y.isInfinite := by
  obtain ⟨c, cs, hcs, hc⟩ := exists_unsignedChars_eq_cons hprinter hx
  obtain ⟨d, ds, hds, hd⟩ := exists_unsignedChars_eq_cons hprinter hy
  obtain ⟨rfl, -⟩ : c = d ∧ cs = ds := List.cons.inj (hcs.symm.trans (h.trans hds))
  have hletter : 'i'.isDigit = false := by decide
  split_ifs at hc hd with hxinf hyinf hyinf
  · rw [hxinf, hyinf]
  · simp [hc, hletter] at hd
  · simp [hd, hletter] at hc
  · rw [Bool.eq_false_iff.2 hxinf, Bool.eq_false_iff.2 hyinf]

/-- Without their signs, texts tell absolute values apart. -/
lemma abs_eq_of_unsignedChars (hprinter : FloatPrinter.TellsApart) (hx : x.isNaN = false)
    (hy : y.isNaN = false) (h : x.unsignedChars = y.unsignedChars) : x.abs = y.abs := by
  have habs : x.magnitude = y.magnitude → x.abs = y.abs := congrArg (ofMagnitude false)
  have hinf := isInfinite_eq_of_unsignedChars hprinter hx hy h
  cases hyinf : y.isInfinite with
  | true =>
    rw [hyinf] at hinf
    simp only [isInfinite, beq_iff_eq] at hinf hyinf
    exact habs (hinf.trans hyinf.symm)
  | false =>
    rw [hyinf] at hinf
    obtain ⟨e, he, hex⟩ := exists_readDecimal_unsignedChars hprinter hx hinf
    obtain ⟨e', he', hey⟩ := exists_readDecimal_unsignedChars hprinter hy hyinf
    rw [h, he', Option.some.injEq] at he
    subst he
    split_ifs at hex hey with hxzero hyzero hyzero
    · simp only [isZero, beq_iff_eq] at hxzero hyzero
      exact habs (hxzero.trans hyzero.symm)
    · obtain ⟨d, hd, hvalue⟩ := hey
      exact absurd (hex.symm.trans hvalue) (Decimal.value_pos hd.digits_ne_zero).ne
    · obtain ⟨d, hd, hvalue⟩ := hex
      exact absurd (hey.symm.trans hvalue) (Decimal.value_pos hd.digits_ne_zero).ne
    · obtain ⟨d, hd, hvalue⟩ := hex
      obtain ⟨d', hd', hvalue'⟩ := hey
      exact hprinter.eq_of_value _ _ (isPositive_abs hx hinf (Bool.eq_false_iff.2 hxzero))
        (isPositive_abs hy hyinf (Bool.eq_false_iff.2 hyzero)) d d' hd.isDecimal hd'.isDecimal
        (hvalue.symm.trans hvalue')

/-- The sign can be read off the text of a number. -/
lemma splitSign_textChars (hprinter : FloatPrinter.TellsApart) (hx : x.isNaN = false) :
    Text.splitSign x.textChars = (x.isNegative, x.unsignedChars) := by
  obtain ⟨c, cs, hcs, hc⟩ := exists_unsignedChars_eq_cons hprinter hx
  have hfirst : c = 'i' ∨ c.isDigit := by
    split_ifs at hc
    · exact Or.inl hc
    · exact Or.inr hc
  rw [textChars_eq hx]
  refine Text.splitSign_append ?_ ?_ _ <;>
  · rw [hcs, List.head?_cons]
    rintro ⟨⟩
    exact absurd hfirst (by decide)

/-- The characters of a number tell it from every other number, but for the bits of a NaN. -/
lemma mergeNaN_eq_of_textChars_eq (hprinter : FloatPrinter.TellsApart)
    (h : x.textChars = y.textChars) : x.mergeNaN = y.mergeNaN := by
  have hother : ∀ {z : Binary64}, z.isNaN = false → z.textChars ≠ ['n', 'a', 'n'] := by
    intro z hz hnan
    obtain ⟨c, cs, hcs, hc⟩ := exists_unsignedChars_eq_cons hprinter hz
    have hsplit := splitSign_textChars hprinter hz
    rw [hnan, hcs] at hsplit
    obtain rfl : 'n' = c := (List.cons.inj (Prod.mk.inj hsplit).2).1
    split_ifs at hc <;> exact absurd hc (by decide)
  unfold mergeNaN
  cases hx : x.isNaN <;> cases hy : y.isNaN
  · have hsplit := splitSign_textChars hprinter hx
    rw [h, splitSign_textChars hprinter hy, Prod.mk.injEq] at hsplit
    simpa using eq_of_abs_eq hsplit.1.symm (abs_eq_of_unsignedChars hprinter hx hy hsplit.2.symm)
  · exact absurd (h.trans (textChars_of_isNaN hy)) (hother hx)
  · exact absurd (h.symm.trans (textChars_of_isNaN hx)) (hother hy)
  · rfl

end Binary64

end Dynval
