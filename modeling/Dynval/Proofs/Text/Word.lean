import Mathlib.Data.List.Basic
import Dynval.Text.Numeral

/-!
# Words

Integers, binary64 numbers, `None`, `True` and `False` are written as words: texts of letters,
digits, signs and points. A word can be told from what follows it when that starts with another
character (`Text.word_append_inj`). It holds neither white space nor underscores, so nothing is
taken off it before it is read.
-/

namespace Dynval

namespace Text

/-! ### The front of a text -/

section Front

variable {p : Char → Bool} {front rest : List Char}

lemma takeWhile_append_of_head (hfront : ∀ c ∈ front, p c) (hrest : ∀ c ∈ rest.head?, p c = false) :
    (front ++ rest).takeWhile p = front := by
  rw [List.takeWhile_append_of_pos hfront]
  cases rest with
  | nil => simp
  | cons c rest => simp [hrest c rfl]

lemma dropWhile_append_of_head (hfront : ∀ c ∈ front, p c) (hrest : ∀ c ∈ rest.head?, p c = false) :
    (front ++ rest).dropWhile p = rest := by
  rw [List.dropWhile_append_of_pos hfront]
  cases rest with
  | nil => rfl
  | cons c rest => simp [hrest c rfl]

lemma splitAt?_of_forall (hfront : ∀ c ∈ front, p c = false) :
    splitAt? p front = (front, none) := by
  have hdrop := @dropWhile_append_of_head (fun c => !p c) front [] (by simpa using hfront) (by simp)
  rw [List.append_nil] at hdrop
  rw [splitAt?, hdrop]

/-- A text is split at the first character of a class. -/
lemma splitAt?_append {c : Char} (hfront : ∀ c ∈ front, p c = false) (hc : p c) :
    splitAt? p (front ++ c :: rest) = (front, some rest) := by
  have hnot : ∀ c ∈ front, (!p c) = true := by simpa using hfront
  have hhead : ∀ d ∈ (c :: rest).head?, (!p d) = false := by
    rintro d ⟨⟩
    simp [hc]
  rw [splitAt?, dropWhile_append_of_head hnot hhead, takeWhile_append_of_head hnot hhead]

end Front

lemma intercalate_cons (separator w : List Char) (ws : List (List Char)) :
    separator.intercalate (w :: ws) = w ++ ws.flatMap (separator ++ ·) := by
  induction ws generalizing w with
  | nil => simp
  | cons x ws ih => simp [List.intercalate_cons_cons, ih]

/-! ### Words -/

/-- Whether a character can stand in a word. -/
def isWordChar (c : Char) : Bool :=
  c.isAlphanum || c == '-' || c == '+' || c == '.'

lemma isWordChar_iff {c : Char} :
    isWordChar c ↔ 48 ≤ c.toNat ∧ c.toNat ≤ 57 ∨ 65 ≤ c.toNat ∧ c.toNat ≤ 90 ∨
      97 ≤ c.toNat ∧ c.toNat ≤ 122 ∨ c.toNat = 43 ∨ c.toNat = 45 ∨ c.toNat = 46 := by
  delta isWordChar Char.isAlphanum Char.isAlpha Char.isUpper Char.isLower Char.isDigit
  simp only [Bool.or_eq_true, Bool.and_eq_true, decide_eq_true_eq, UInt32.le_iff_toNat_le,
    ge_iff_le, beq_iff_eq, ← Char.toNat_inj, Char.toNat_val, Char.reduceToNat]
  omega

lemma isWordChar_of_isDigit {c : Char} (h : c.isDigit) : isWordChar c := by
  simp [isWordChar, Char.isAlphanum, h]

/-- No word holds white space. -/
lemma isBlank_of_isWordChar {c : Char} (h : isWordChar c) : isBlank c = false := by
  rw [isWordChar_iff] at h
  simp only [isBlank, Bool.or_eq_false_iff, decide_eq_false_iff_not, beq_eq_false_iff_ne]
  omega

lemma ne_underscore_of_isWordChar {c : Char} (h : isWordChar c) : c ≠ '_' := by
  rintro rfl
  exact absurd h (by decide)

/-- Trimming takes off the white space around characters that hold none. -/
lemma trim_append {before cs after : List Char} (hbefore : ∀ c ∈ before, isBlank c)
    (hafter : ∀ c ∈ after, isBlank c) (hne : cs ≠ []) (hcs : ∀ c ∈ cs, isBlank c = false) :
    trim (before ++ cs ++ after) = cs := by
  have hleft : (before ++ (cs ++ after)).dropWhile isBlank = cs ++ after := by
    refine dropWhile_append_of_head hbefore fun c hc => hcs c ?_
    rw [List.head?_append_of_ne_nil _ hne] at hc
    exact List.mem_of_mem_head? hc
  have hright : (after.reverse ++ cs.reverse).dropWhile isBlank = cs.reverse := by
    refine dropWhile_append_of_head (fun c hc => hafter c (List.mem_reverse.1 hc)) fun c hc => ?_
    exact hcs c (List.mem_reverse.1 (List.mem_of_mem_head? hc))
  rw [trim, List.append_assoc, hleft, List.reverse_append, hright, List.reverse_reverse]

/-- Nothing is trimmed off a word. -/
lemma trim_word {cs : List Char} (h : ∀ c ∈ cs, isWordChar c) : trim cs = cs := by
  rcases eq_or_ne cs [] with rfl | hne
  · rfl
  · have hcs : ∀ c ∈ cs, isBlank c = false := fun c hc => isBlank_of_isWordChar (h c hc)
    simpa using @trim_append [] cs [] (by simp) (by simp) hne hcs

lemma dropSeparators_word {cs : List Char} (h : ∀ c ∈ cs, isWordChar c) (after : Bool) :
    dropSeparators Char.isDigit after cs = some cs := by
  induction cs generalizing after with
  | nil => rfl
  | cons c cs ih =>
    rw [dropSeparators, if_neg (ne_underscore_of_isWordChar (h c List.mem_cons_self)),
      ih fun c hc => h c (List.mem_cons_of_mem _ hc)]
    rfl

/-- The minus sign of a negative number is taken off. -/
lemma splitSign_append {body : List Char} (hplus : body.head? ≠ some '+')
    (hminus : body.head? ≠ some '-') (negative : Bool) :
    splitSign ((if negative then ['-'] else []) ++ body) = (negative, body) := by
  cases negative with
  | true => rfl
  | false =>
    cases body with
    | nil => rfl
    | cons c cs =>
      have h₁ : c ≠ '+' := fun h => hplus (congrArg some h)
      have h₂ : c ≠ '-' := fun h => hminus (congrArg some h)
      simp [splitSign, h₁, h₂]

/-- Whether a text cannot go on with a word that stands before it. -/
def EndsWord (rest : List Char) : Prop :=
  ∀ c ∈ rest.head?, isWordChar c = false

lemma endsWord_cons {c : Char} (hc : isWordChar c = false) (cs : List Char) :
    EndsWord (c :: cs) := by
  rintro d ⟨⟩
  exact hc

/-- A word is told from what follows it. -/
lemma word_append_inj {w w' rest rest' : List Char} (hw : ∀ c ∈ w, isWordChar c)
    (hw' : ∀ c ∈ w', isWordChar c) (hrest : EndsWord rest) (hrest' : EndsWord rest')
    (h : w ++ rest = w' ++ rest') : w = w' ∧ rest = rest' := by
  obtain rfl : w = w' := by
    rw [← takeWhile_append_of_head hw hrest, h, takeWhile_append_of_head hw' hrest']
  exact ⟨rfl, List.append_cancel_left h⟩

end Text

/-! ### The digits of natural numbers -/

namespace Decimal

lemma isDigit_of_mem_toDigits {n : ℕ} : ∀ c ∈ Nat.toDigits 10 n, c.isDigit := fun _ hc =>
  Nat.isDigit_of_mem_toDigits (by decide) (by decide) hc

lemma isDigit_of_mem_zeros (k : ℕ) : ∀ c ∈ List.replicate k '0', c.isDigit := fun c hc => by
  simp [List.eq_of_mem_replicate hc]

/-- The first digit of a positive number is not zero. -/
lemma head?_toDigits_ne_zero {n : ℕ} (hn : 0 < n) : (Nat.toDigits 10 n).head? ≠ some '0' := by
  induction n using Nat.strongRecOn with
  | ind n ih =>
    rcases Nat.lt_or_ge n 10 with hlt | hge
    · rw [Nat.toDigits_of_lt_base hlt]
      simp [Nat.ne_of_gt hn]
    · rw [Nat.toDigits_of_base_le (by decide) hge,
        List.head?_append_of_ne_nil _ Nat.toDigits_ne_nil]
      exact ih (n / 10) (by omega) (by omega)

lemma getLast?_toDigits (n : ℕ) : (Nat.toDigits 10 n).getLast? = some (Nat.digitChar (n % 10)) := by
  rcases Nat.lt_or_ge n 10 with hlt | hge
  · rw [Nat.toDigits_of_lt_base hlt, Nat.mod_eq_of_lt hlt]
    rfl
  · rw [Nat.toDigits_of_base_le (by decide) hge, List.getLast?_concat]

end Decimal

/-! ### Integers -/

/-- The text of an integer tells it. -/
lemma intChars_inj {i j : Int} (h : intChars i = intChars j) : i = j := by
  have hread : ∀ n : Nat, Nat.ofDigitChars 10 (Nat.toDigits 10 n) 0 = n := fun n =>
    Nat.ofDigitChars_ten_toDigits
  have hsign : ∀ n : Nat, (Nat.toDigits 10 n).head? ≠ some '-' := by
    intro n hn
    have hdigit := Decimal.isDigit_of_mem_toDigits '-' (List.mem_of_mem_head? hn)
    exact absurd hdigit (by decide)
  unfold intChars at h
  split_ifs at h with hi hj hj
  · have habs := congrArg (Nat.ofDigitChars 10 · 0) (List.cons.inj h).2
    simp only [hread] at habs
    omega
  · exact absurd (congrArg List.head? h).symm (hsign _)
  · exact absurd (congrArg List.head? h) (hsign _)
  · have habs := congrArg (Nat.ofDigitChars 10 · 0) h
    simp only [hread] at habs
    omega

/-- An integer is written with digits and a minus. -/
lemma mem_intChars {i : Int} {c : Char} (hc : c ∈ intChars i) : c = '-' ∨ c.isDigit := by
  unfold intChars at hc
  split_ifs at hc
  · exact (List.mem_cons.1 hc).imp_right (Decimal.isDigit_of_mem_toDigits c)
  · exact Or.inr (Decimal.isDigit_of_mem_toDigits c hc)

lemma isWordChar_intChars (i : Int) : ∀ c ∈ intChars i, Text.isWordChar c := by
  intro c hc
  rcases mem_intChars hc with rfl | hdigit
  · decide
  · exact Text.isWordChar_of_isDigit hdigit

lemma intChars_ne_nil (i : Int) : intChars i ≠ [] := by
  unfold intChars
  split_ifs
  · exact List.cons_ne_nil _ _
  · exact Nat.toDigits_ne_nil

end Dynval
