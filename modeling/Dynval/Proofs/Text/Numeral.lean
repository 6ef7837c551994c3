import Mathlib.Data.List.TakeWhile
import Mathlib.Data.Nat.Digits.Defs
import Dynval.Proofs.Action.Basic
import Dynval.Proofs.Key.Equality
import Dynval.Proofs.Text.Word
import Dynval.Value.Coerce

/-!
# The notation of integers

An integer is written with an optional sign and one or more groups of digits with single
underscores between them (`Text.IsInteger`); white space may stand around it
(`Text.IsPaddedInteger`). `Text.readInt` reads such texts and no others, as far as the number is
one of 64 bits.

Where the underscores may stand is decided while they are dropped (`dropSeparators_eq_some_iff`):
characters that are digits and underscores fall apart into groups in one way, and dropping the
underscores succeeds when no group is empty.
-/

namespace Dynval

namespace Text

/-! ### Notation -/

/-- The number that decimal digits stand for, the first of them counting most. -/
def decimalValue (digits : List Char) : ℕ :=
  Nat.ofDigits 10 (digits.reverse.map fun c => c.toNat - '0'.toNat)

/-- What may stand before the digits of an integer, and whether it makes the integer negative. -/
inductive IsSign : List Char → Bool → Prop
  | none : IsSign [] false
  | plus : IsSign ['+'] false
  | minus : IsSign ['-'] true

/-- One or more groups of digits, with at least one digit in each. -/
structure IsGrouping (groups : List (List Char)) : Prop where
  ne_nil : groups ≠ []
  group_ne_nil : ∀ g ∈ groups, g ≠ []
  isDigit : ∀ g ∈ groups, ∀ c ∈ g, c.isDigit

/-- Whether characters are an integer in decimal notation. -/
def IsInteger (cs : List Char) (n : Int) : Prop :=
  ∃ sign negative groups, IsSign sign negative ∧ IsGrouping groups ∧
    cs = sign ++ ['_'].intercalate groups ∧
    n = if negative then -(decimalValue groups.flatten : Int) else decimalValue groups.flatten

/-- Whether a text is an integer in decimal notation with any white space around it. -/
def IsPaddedInteger (s : String) (n : Int) : Prop :=
  ∃ before cs after, s.toList = before ++ cs ++ after ∧ (∀ c ∈ before, isBlank c) ∧
    (∀ c ∈ after, isBlank c) ∧ IsInteger cs n

/-- Reading digits from the left gives the number that they stand for. -/
lemma ofDigitChars_eq_decimalValue (digits : List Char) :
    Nat.ofDigitChars 10 digits 0 = decimalValue digits := by
  -- From the last digit on, as the next digit makes all before it count ten times as much.
  induction digits using List.reverseRecOn with
  | nil => rfl
  | append_singleton digits c ih =>
    rw [Nat.ofDigitChars_append, ih, Nat.ofDigitChars_cons, Nat.ofDigitChars_nil, decimalValue,
      decimalValue, List.reverse_append, List.map_append, Nat.ofDigits_append]
    simp [add_comm]

/-! ### White space -/

/-- Trimming takes off white space only. -/
lemma exists_eq_append_trim (cs : List Char) :
    ∃ before after, cs = before ++ trim cs ++ after ∧ (∀ c ∈ before, isBlank c) ∧
      ∀ c ∈ after, isBlank c := by
  set inner := cs.dropWhile isBlank with hinner
  refine ⟨cs.takeWhile isBlank, (inner.reverse.takeWhile isBlank).reverse, ?_,
    fun c => List.mem_takeWhile_imp, fun c hc => List.mem_takeWhile_imp (List.mem_reverse.1 hc)⟩
  rw [trim, List.append_assoc, ← List.reverse_append, List.takeWhile_append_dropWhile,
    List.reverse_reverse, hinner, List.takeWhile_append_dropWhile]

/-- The characters between the white space are those that are left when a text is trimmed, if they
hold no white space themselves. -/
lemma exists_padded_iff {p : List Char → Prop}
    (hp : ∀ {cs}, p cs → cs ≠ [] ∧ ∀ c ∈ cs, isBlank c = false) {s : String} :
    (∃ before cs after, s.toList = before ++ cs ++ after ∧ (∀ c ∈ before, isBlank c) ∧
      (∀ c ∈ after, isBlank c) ∧ p cs) ↔ p (trim s.toList) := by
  constructor
  · rintro ⟨before, cs, after, hs, hbefore, hafter, h⟩
    rwa [hs, trim_append hbefore hafter (hp h).1 (hp h).2]
  · intro h
    obtain ⟨before, after, hs, hbefore, hafter⟩ := exists_eq_append_trim s.toList
    exact ⟨before, _, after, hs, hbefore, hafter, h⟩

/-! ### Groups of digits -/

/-- Digits and underscores fall apart into groups of digits, some of which may be empty. -/
lemma exists_groups {cs : List Char} (hcs : ∀ c ∈ cs, c.isDigit ∨ c = '_') :
    ∃ g gs, cs = g ++ gs.flatMap ('_' :: ·) ∧ ∀ h ∈ g :: gs, ∀ c ∈ h, c.isDigit := by
  induction cs with
  | nil => exact ⟨[], [], rfl, by simp⟩
  | cons c cs ih =>
    obtain ⟨hc, hcs⟩ := List.forall_mem_cons.1 hcs
    obtain ⟨g, gs, rfl, hdigits⟩ := ih hcs
    rcases hc with hdigit | rfl
    · refine ⟨c :: g, gs, rfl, ?_⟩
      simp only [List.forall_mem_cons] at hdigits ⊢
      exact ⟨⟨hdigit, hdigits.1⟩, hdigits.2⟩
    · exact ⟨[], g :: gs, rfl, List.forall_mem_cons.2 ⟨by simp, hdigits⟩⟩

lemma head?_any_isDigit_iff {g : List Char} (hg : ∀ c ∈ g, c.isDigit) (gs : List (List Char)) :
    (g ++ gs.flatMap ('_' :: ·)).head?.any Char.isDigit ↔ g ≠ [] := by
  cases g with
  | nil =>
    cases gs with
    | nil => simp
    | cons h gs => simp
  | cons c g => simp [hg c List.mem_cons_self]

/-- The underscores can be dropped when no group behind one of them is empty and a digit stands
before the first one, either in the text or in front of it. -/
lemma dropSeparators_eq_some_iff {g : List Char} {gs : List (List Char)} {after : Bool}
    {ds : List Char} (hg : ∀ c ∈ g, c.isDigit) (hgs : ∀ h ∈ gs, ∀ c ∈ h, c.isDigit) :
    dropSeparators Char.isDigit after (g ++ gs.flatMap ('_' :: ·)) = some ds ↔
      (gs = [] ∨ g ≠ [] ∨ after) ∧ (∀ h ∈ gs, h ≠ []) ∧ ds = g ++ gs.flatten := by
  induction gs generalizing g after ds with
  | nil =>
    have hword : ∀ c ∈ g, isWordChar c := fun c hc => isWordChar_of_isDigit (hg c hc)
    simp [dropSeparators_word hword, eq_comm]
  | cons h gs ih =>
    obtain ⟨hh, hgs⟩ := List.forall_mem_cons.1 hgs
    -- digits are passed one by one; behind an underscore the scan starts anew with the next group
    induction g generalizing after ds with
    | nil =>
      have hstep := @ih h false ds hh hgs
      have hhead := head?_any_isDigit_iff hh gs
      simp only [List.nil_append, List.flatMap_cons, List.cons_append, dropSeparators, if_true,
        Option.ite_none_right_eq_some, Bool.and_eq_true, hhead, hstep]
      constructor
      · rintro ⟨⟨hafter, hne⟩, -, hnes, rfl⟩
        exact ⟨Or.inr (Or.inr hafter), List.forall_mem_cons.2 ⟨hne, hnes⟩, rfl⟩
      · rintro ⟨hfirst, hall, rfl⟩
        obtain ⟨hne, hnes⟩ := List.forall_mem_cons.1 hall
        have hafter : after := by simpa using hfirst
        exact ⟨⟨hafter, hne⟩, Or.inr (Or.inl hne), hnes, rfl⟩
    | cons c g ihg =>
      obtain ⟨hc, hg⟩ := List.forall_mem_cons.1 hg
      have hne : c ≠ '_' := ne_underscore_of_isWordChar (isWordChar_of_isDigit hc)
      simp only [List.cons_append, dropSeparators, if_neg hne, hc, Option.map_eq_some_iff,
        ihg hg]
      constructor
      · rintro ⟨_, ⟨-, hnes, rfl⟩, rfl⟩
        exact ⟨Or.inr (Or.inl (List.cons_ne_nil _ _)), hnes, rfl⟩
      · rintro ⟨-, hnes, rfl⟩
        exact ⟨_, ⟨Or.inr (Or.inr trivial), hnes, rfl⟩, rfl⟩

/-- Groups of digits are read without the underscores between them. -/
lemma dropSeparators_intercalate {groups : List (List Char)} (h : IsGrouping groups) :
    dropSeparators Char.isDigit false (['_'].intercalate groups) = some groups.flatten := by
  obtain ⟨g, gs, rfl⟩ := List.exists_cons_of_ne_nil h.ne_nil
  obtain ⟨hg, hgs⟩ := List.forall_mem_cons.1 h.isDigit
  obtain ⟨hne, hnes⟩ := List.forall_mem_cons.1 h.group_ne_nil
  rw [intercalate_cons]
  exact (dropSeparators_eq_some_iff hg hgs).2 ⟨Or.inr (Or.inl hne), hnes, rfl⟩

/-- What is left without underscores was made of groups of digits. -/
lemma exists_isGrouping {cs ds : List Char} (hne : cs ≠ [])
    (hcs : ∀ c ∈ cs, c.isDigit ∨ c = '_') (h : dropSeparators Char.isDigit false cs = some ds) :
    ∃ groups, IsGrouping groups ∧ cs = ['_'].intercalate groups ∧ ds = groups.flatten := by
  obtain ⟨g, gs, rfl, hdigits⟩ := exists_groups hcs
  obtain ⟨hg, hgs⟩ := List.forall_mem_cons.1 hdigits
  obtain ⟨hfirst, hnes, rfl⟩ := (dropSeparators_eq_some_iff hg hgs).1 h
  have hgne : g ≠ [] := by
    rintro rfl
    rcases hfirst with rfl | hnil | hafter
    · exact hne rfl
    · exact hnil rfl
    · cases hafter
  refine ⟨g :: gs, ⟨List.cons_ne_nil _ _, List.forall_mem_cons.2 ⟨hgne, hnes⟩, hdigits⟩, ?_, rfl⟩
  rw [intercalate_cons]
  rfl

namespace IsGrouping

variable {groups : List (List Char)}

lemma mem_intercalate (h : IsGrouping groups) :
    ∀ c ∈ ['_'].intercalate groups, c.isDigit ∨ c = '_' := by
  obtain ⟨g, gs, rfl⟩ := List.exists_cons_of_ne_nil h.ne_nil
  obtain ⟨hg, hgs⟩ := List.forall_mem_cons.1 h.isDigit
  intro c hc
  rw [intercalate_cons, List.mem_append, List.mem_flatMap] at hc
  rcases hc with hc | ⟨g', hg', hc⟩
  · exact Or.inl (hg c hc)
  · rcases List.mem_cons.1 hc with rfl | hc
    · exact Or.inr rfl
    · exact Or.inl (hgs g' hg' c hc)

lemma flatten_ne_nil (h : IsGrouping groups) : groups.flatten ≠ [] := by
  obtain ⟨g, gs, rfl⟩ := List.exists_cons_of_ne_nil h.ne_nil
  simp [h.group_ne_nil g List.mem_cons_self]

lemma isDigit_flatten (h : IsGrouping groups) : ∀ c ∈ groups.flatten, c.isDigit := by
  intro c hc
  obtain ⟨g, hg, hc⟩ := List.mem_flatten.1 hc
  exact h.isDigit g hg c hc

lemma intercalate_ne_nil (h : IsGrouping groups) : ['_'].intercalate groups ≠ [] := by
  intro hnil
  have hdrop := dropSeparators_intercalate h
  rw [hnil] at hdrop
  exact h.flatten_ne_nil (Option.some.inj hdrop).symm

end IsGrouping

/-! ### Signs -/

/-- At most one sign is taken off. -/
lemma exists_isSign (cs : List Char) :
    ∃ sign, IsSign sign (splitSign cs).1 ∧ cs = sign ++ (splitSign cs).2 := by
  unfold splitSign
  split
  · exact ⟨_, .plus, rfl⟩
  · exact ⟨_, .minus, rfl⟩
  · exact ⟨_, .none, rfl⟩

namespace IsSign

variable {sign body : List Char} {negative : Bool}

lemma isWordChar (h : IsSign sign negative) : ∀ c ∈ sign, isWordChar c := by
  cases h <;> exact List.all_eq_true.1 (by decide)

lemma splitSign_append_of_head (h : IsSign sign negative) (hplus : body.head? ≠ some '+')
    (hminus : body.head? ≠ some '-') : splitSign (sign ++ body) = (negative, body) := by
  cases h with
  | none => exact Text.splitSign_append hplus hminus false
  | plus => rfl
  | minus => rfl

lemma splitSign_append (h : IsSign sign negative) (hbody : ∀ c ∈ body, c.isDigit ∨ c = '_') :
    splitSign (sign ++ body) = (negative, body) := by
  have hhead : ∀ c, c.isDigit = false → c ≠ '_' → body.head? ≠ some c := by
    intro c hdigit hne hc
    rcases hbody c (List.mem_of_mem_head? hc) with hc | hc
    · exact absurd hc (Bool.eq_false_iff.1 hdigit)
    · exact hne hc
  exact h.splitSign_append_of_head (hhead _ (by decide) (by decide))
    (hhead _ (by decide) (by decide))

/-- A sign is no digit, so behind it the underscores stand as they may at the front of a text. -/
lemma dropSeparators_append (h : IsSign sign negative) (body : List Char) :
    dropSeparators Char.isDigit false (sign ++ body) =
      (dropSeparators Char.isDigit false body).map (sign ++ ·) := by
  cases h <;> simp [dropSeparators]

end IsSign

/-! ### Reading -/

/-- Digits behind at most a sign are read as their number. -/
lemma signed?_append {sign digits : List Char} {negative : Bool} (hsign : IsSign sign negative)
    (hne : digits ≠ []) (hdigits : ∀ c ∈ digits, c.isDigit) :
    signed? (sign ++ digits) =
      some (if negative then -(decimalValue digits : Int) else decimalValue digits) := by
  have hsplit := hsign.splitSign_append fun c hc => Or.inl (hdigits c hc)
  have hempty : digits.isEmpty = false := by simpa using hne
  have hdigit : digits.all Char.isDigit = true := List.all_eq_true.2 hdigits
  simp [signed?, hsplit, hempty, hdigit, ofDigitChars_eq_decimalValue]

/-- What is read as an integer is digits behind at most a sign. -/
lemma exists_of_signed? {cs : List Char} {n : Int} (h : signed? cs = some n) :
    ∃ sign negative digits, IsSign sign negative ∧ digits ≠ [] ∧ (∀ c ∈ digits, c.isDigit) ∧
      cs = sign ++ digits ∧
      n = if negative then -(decimalValue digits : Int) else decimalValue digits := by
  obtain ⟨sign, hsign, hcs⟩ := exists_isSign cs
  rw [signed?] at h
  generalize splitSign cs = split at hsign hcs h
  obtain ⟨negative, digits⟩ := split
  obtain ⟨hfilter, hn⟩ := Option.ite_none_left_eq_some.1 h
  obtain ⟨hne, hdigits⟩ : digits ≠ [] ∧ ∀ c ∈ digits, c.isDigit := by simpa using hfilter
  refine ⟨sign, negative, digits, hsign, hne, hdigits, hcs, ?_⟩
  rw [← Option.some.inj hn, ofDigitChars_eq_decimalValue]

/-- The sign passes through the dropping of the underscores, so only what stands behind it is left
to be checked. -/
lemma readInt_of_trim {s : String} {sign body : List Char} {negative : Bool}
    (hsign : IsSign sign negative) (hs : trim s.toList = sign ++ body) (hne : body ≠ [])
    (hbody : ∀ c ∈ body, c.isDigit ∨ c = '_') :
    readInt s = (dropSeparators Char.isDigit false body).bind fun ds =>
      (signed? (sign ++ ds)).bind toInt64? := by
  have hsplit := hsign.splitSign_append hbody
  have hempty : body.isEmpty = false := by simpa using hne
  have hall : (body.all fun c => c.isDigit || c == '_') = true := by simpa using hbody
  simp only [readInt, hs, hsplit, hempty, hall, hsign.dropSeparators_append, Bool.not_true,
    Bool.or_self, Bool.false_eq_true, if_false, Option.bind_map, Function.comp_def]

lemma readInt_of_isInteger {s : String} {n : Int} (h : IsInteger (trim s.toList) n) :
    readInt s = toInt64? n := by
  obtain ⟨sign, negative, groups, hsign, hgroups, hs, rfl⟩ := h
  rw [readInt_of_trim hsign hs hgroups.intercalate_ne_nil hgroups.mem_intercalate,
    dropSeparators_intercalate hgroups, Option.bind_some,
    signed?_append hsign hgroups.flatten_ne_nil hgroups.isDigit_flatten, Option.bind_some]

/-- What is read as an integer is one, apart from the white space around it. -/
lemma isInteger_of_readInt {s : String} {n : Int64} (h : readInt s = some n) :
    IsInteger (trim s.toList) n.toInt := by
  obtain ⟨sign, hsign, hs⟩ := exists_isSign (trim s.toList)
  set negative := (splitSign (trim s.toList)).1
  set body := (splitSign (trim s.toList)).2
  obtain ⟨hne, hbody⟩ : body ≠ [] ∧ ∀ c ∈ body, c.isDigit ∨ c = '_' := by
    have hfilter : ¬(body.isEmpty || !body.all fun c => c.isDigit || c == '_') = true :=
      (Option.ite_none_left_eq_some.1 h).1
    simpa [or_iff_not_imp_left] using hfilter
  rw [readInt_of_trim hsign hs hne hbody] at h
  obtain ⟨ds, hdrop, hread⟩ := Option.bind_eq_some_iff.1 h
  obtain ⟨groups, hgroups, hcs, rfl⟩ := exists_isGrouping hne hbody hdrop
  rw [signed?_append hsign hgroups.flatten_ne_nil hgroups.isDigit_flatten, Option.bind_some,
    toInt64?_eq_some_iff] at hread
  exact ⟨sign, negative, groups, hsign, hgroups, hs.trans (by rw [hcs]), hread.symm⟩

lemma IsInteger.ne_nil {cs : List Char} {n : Int} (h : IsInteger cs n) : cs ≠ [] := by
  obtain ⟨sign, negative, groups, -, hgroups, rfl, -⟩ := h
  exact List.append_ne_nil_of_right_ne_nil _ hgroups.intercalate_ne_nil

lemma IsInteger.isBlank {cs : List Char} {n : Int} (h : IsInteger cs n) :
    ∀ c ∈ cs, isBlank c = false := by
  obtain ⟨sign, negative, groups, hsign, hgroups, rfl, -⟩ := h
  intro c hc
  rcases List.mem_append.1 hc with hc | hc
  · exact isBlank_of_isWordChar (hsign.isWordChar c hc)
  · rcases hgroups.mem_intercalate c hc with hdigit | rfl
    · exact isBlank_of_isWordChar (isWordChar_of_isDigit hdigit)
    · decide

lemma isPaddedInteger_iff {s : String} {n : Int} :
    IsPaddedInteger s n ↔ IsInteger (trim s.toList) n :=
  exists_padded_iff fun h => ⟨h.ne_nil, h.isBlank⟩

lemma readInt_of_isPaddedInteger {s : String} {n : Int} (h : IsPaddedInteger s n) :
    readInt s = toInt64? n :=
  readInt_of_isInteger (isPaddedInteger_iff.1 h)

/-- Exactly the padded integers that fit 64 bits are read. -/
lemma readInt_eq_some_iff {s : String} {n : Int64} :
    readInt s = some n ↔ IsPaddedInteger s n.toInt := by
  constructor
  · exact fun h => isPaddedInteger_iff.2 (isInteger_of_readInt h)
  · intro h
    rw [readInt_of_isPaddedInteger h, toInt64?_eq_some_iff]

lemma toInt64?_eq_none_iff {n : Int} :
    toInt64? n = none ↔ n < Int64.minValue.toInt ∨ Int64.maxValue.toInt < n := by
  unfold toInt64?
  rw [ite_eq_right_iff]
  simp only [reduceCtorEq, imp_false]
  omega

/-- A text is not read when it is no integer, or one that 64 bits do not hold. -/
lemma readInt_eq_none_iff {s : String} :
    readInt s = none ↔ ∀ n, IsPaddedInteger s n →
      n < Int64.minValue.toInt ∨ Int64.maxValue.toInt < n := by
  constructor
  · intro h n hn
    rwa [← toInt64?_eq_none_iff, ← readInt_of_isPaddedInteger hn]
  · intro h
    by_contra hsome
    obtain ⟨n, hread⟩ := Option.ne_none_iff_exists'.1 hsome
    rcases h _ (readInt_eq_some_iff.1 hread) with hlow | hhigh
    · exact absurd n.minValue_le_toInt (not_le.2 hlow)
    · exact absurd n.toInt_le (not_le.2 hhigh)

end Text

/-! ### Writing -/

lemma isInteger_intChars (i : Int) : Text.IsInteger (intChars i) i := by
  have hgroups : Text.IsGrouping [Nat.toDigits 10 i.natAbs] :=
    ⟨List.cons_ne_nil _ _, by simp [Nat.toDigits_ne_nil],
      by simpa using Decimal.isDigit_of_mem_toDigits⟩
  have hvalue : Text.decimalValue [Nat.toDigits 10 i.natAbs].flatten = i.natAbs := by
    rw [← Text.ofDigitChars_eq_decimalValue, List.flatten_singleton, Nat.ofDigitChars_ten_toDigits]
  unfold intChars
  split_ifs with hi
  · refine ⟨['-'], true, _, .minus, hgroups, by simp, ?_⟩
    rw [hvalue, if_pos rfl]
    omega
  · refine ⟨[], false, _, .none, hgroups, by simp, ?_⟩
    rw [hvalue, if_neg Bool.false_ne_true]
    omega

/-- The text of an integer reads back. -/
lemma readInt_display [FloatPrinter] (s : Store) (n : Int64) :
    Text.readInt ((Value.int n).display s) = some n := by
  have htext : ((Value.int n).display s).toList = intChars n.toInt := by
    simp [Value.display, Renderer.value, Renderer.put]
  rw [Text.readInt_eq_some_iff, Text.isPaddedInteger_iff, htext,
    Text.trim_word (isWordChar_intChars _)]
  exact isInteger_intChars _

/-- The texts that read as a 64-bit integer are those that are the integer in decimal notation with
any white space around it; every other text, and every integer that is no 64-bit one, is not read.
So the text of an integer converts back to it, and nothing is reported. -/
theorem readInt_reads_padded_integers [FloatPrinter] :
    (∀ s n, Text.readInt s = some n ↔ Text.IsPaddedInteger s n.toInt) ∧
      (∀ s, Text.readInt s = none ↔ ∀ n, Text.IsPaddedInteger s n →
        n < Int64.minValue.toInt ∨ Int64.maxValue.toInt < n) ∧
      ∀ (s : Store) (n : Int64),
        ((Value.str ((Value.int n).display s)).asInt : Action Fault Int64) s = ⟨.ok n, s, []⟩ := by
  refine ⟨fun s n => Text.readInt_eq_some_iff, fun s => Text.readInt_eq_none_iff, fun s n => ?_⟩
  have hread := readInt_display s n
  simp [Value.asInt, Value.toIntEvents, Value.toInt, hread, Action.bind_apply]

example : Text.readInt "\u00a0-9_223_372_036_854_775_808\n" = some Int64.minValue ∧
    Text.readInt "+9223372036854775808" = none ∧ Text.readInt "-_1" = none := by
  decide +kernel

end Dynval
