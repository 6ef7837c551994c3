import Dynval.Proofs.Text.Numeral

/-!
# The notation of binary64 numbers

A binary64 number is written with an optional sign, and then by name in any letter case or as a
decimal literal (`Text.IsFloat`); white space may stand around it (`Text.IsPaddedFloat`).
`Text.readFloat` reads such texts and no others.

In a decimal literal underscores may stand between two digits. Where they stand is checked without
regard to the form of the literal (`dropSeparators_eq_some_iff_separates`), and the form is checked
without the underscores (`readDecimal_eq_some_iff`).
-/

namespace Dynval

namespace Text

/-! ### Notation -/

/-- What may stand at the end of a decimal literal, and the power of ten that it stands for. -/
inductive IsExponent : List Char → Int → Prop
  | none : IsExponent [] 0
  | some {mark : Char} {sign digits : List Char} {negative : Bool} (hmark : mark = 'e' ∨ mark = 'E')
      (hsign : IsSign sign negative) (hne : digits ≠ []) (hdigits : ∀ c ∈ digits, c.isDigit) :
    IsExponent (mark :: (sign ++ digits))
      (if negative then -(decimalValue digits : Int) else decimalValue digits)

/-- What may stand behind the whole digits of a decimal literal, and the digits in it. -/
inductive IsFraction : List Char → List Char → Prop
  | none : IsFraction [] []
  | point {digits : List Char} (hdigits : ∀ c ∈ digits, c.isDigit) :
    IsFraction ('.' :: digits) digits

/-- Whether characters are a decimal literal without sign and underscores: digits with at most one
point before, between or behind them, and an optional exponent. -/
def IsDecimal (cs : List Char) (d : Decimal) : Prop :=
  ∃ whole point fraction exponent e, (∀ c ∈ whole, c.isDigit) ∧ IsFraction point fraction ∧
    whole ++ fraction ≠ [] ∧ IsExponent exponent e ∧ cs = whole ++ point ++ exponent ∧
    d = ⟨decimalValue (whole ++ fraction), e - fraction.length⟩

/-- Whether every underscore stands between two digits, with `front` before the characters. -/
def SeparatesDigits (front cs : List Char) : Prop :=
  ∀ before after, cs = before ++ '_' :: after →
    (front ++ before).getLast?.any Char.isDigit ∧ after.head?.any Char.isDigit

def plain (cs : List Char) : List Char :=
  cs.filter (· ≠ '_')

/-- Whether characters are the letters of a name, small or capital. -/
def InAnyCase (name : String) (cs : List Char) : Prop :=
  List.Forall₂ (fun c d => c = d ∨ c = d.toUpper) cs name.toList

/-- Whether characters name a number of the given sign that no digits denote. -/
inductive IsName (negative : Bool) (cs : List Char) : Binary64 → Prop
  | inf (h : InAnyCase "inf" cs) : IsName negative cs (Binary64.infinity negative)
  | infinity (h : InAnyCase "infinity" cs) : IsName negative cs (Binary64.infinity negative)
  | nan (h : InAnyCase "nan" cs) :
    IsName negative cs (if negative then Binary64.nan.neg else Binary64.nan)

/-- Whether characters are a binary64 number. -/
inductive IsFloat : List Char → Binary64 → Prop
  | name {sign cs : List Char} {negative : Bool} {x : Binary64} (hsign : IsSign sign negative)
      (hname : IsName negative cs x) : IsFloat (sign ++ cs) x
  | decimal {sign cs : List Char} {negative : Bool} {d : Decimal} (hsign : IsSign sign negative)
      (hseparates : SeparatesDigits [] cs) (hdecimal : IsDecimal (plain cs) d) :
    IsFloat (sign ++ cs) (Binary64.ofDecimal negative d.digits d.exponent)

/-- Whether a text is a binary64 number with any white space around it. -/
def IsPaddedFloat (s : String) (x : Binary64) : Prop :=
  ∃ before cs after, s.toList = before ++ cs ++ after ∧ (∀ c ∈ before, isBlank c) ∧
    (∀ c ∈ after, isBlank c) ∧ IsFloat cs x

/-! ### Characters of literals -/

lemma isNumberChar_of_isDigit {c : Char} (h : c.isDigit) : isNumberChar c ∧ c ≠ '_' := by
  refine ⟨by simp [isNumberChar, h], ?_⟩
  rintro rfl
  exact absurd h (by decide)

lemma isWordChar_of_isNumberChar {c : Char} (h : isNumberChar c) (hne : c ≠ '_') :
    isWordChar c := by
  simp only [isNumberChar, Bool.or_eq_true, beq_iff_eq] at h
  rcases h with (((((h | rfl) | rfl) | rfl) | rfl) | rfl) | rfl
  · exact isWordChar_of_isDigit h
  · exact absurd rfl hne
  all_goals decide

lemma IsSign.isNumberChar {sign : List Char} {negative : Bool} (h : IsSign sign negative) :
    ∀ c ∈ sign, isNumberChar c ∧ c ≠ '_' := by
  cases h <;> simp <;> decide

/-! ### Exponents -/

/-- Exactly the exponents of decimal literals are read. -/
lemma readExponent_eq_some_iff {cs : List Char} {e : Int} :
    readExponent cs = some e ↔ IsExponent cs e := by
  constructor
  · intro h
    cases cs with
    | nil =>
      cases h
      exact .none
    | cons c cs =>
      obtain ⟨hmark, he⟩ := Option.ite_none_right_eq_some.1 h
      obtain ⟨sign, negative, digits, hsign, hne, hdigits, rfl, rfl⟩ := exists_of_signed? he
      exact .some hmark hsign hne hdigits
  · rintro (_ | ⟨hmark, hsign, hne, hdigits⟩)
    · rfl
    · rw [readExponent, if_pos hmark, signed?_append hsign hne hdigits]

namespace IsExponent

variable {cs : List Char} {e : Int}

/-- An exponent does not go on with the digits before it. -/
lemma head (h : IsExponent cs e) : ∀ c ∈ cs.head?, c.isDigit = false ∧ c ≠ '.' := by
  intro c hc
  cases h with
  | none => cases hc
  | some hmark =>
    cases hc
    rcases hmark with rfl | rfl <;> decide

lemma isNumberChar (h : IsExponent cs e) : ∀ c ∈ cs, isNumberChar c ∧ c ≠ '_' := by
  cases h with
  | none => simp
  | some hmark hsign _ hdigits =>
    rw [List.forall_mem_cons, List.forall_mem_append]
    refine ⟨?_, hsign.isNumberChar, fun c hc => isNumberChar_of_isDigit (hdigits c hc)⟩
    rcases hmark with rfl | rfl <;> decide

end IsExponent

/-! ### Decimal literals -/

/-- A literal with a point. -/
lemma readDecimal_point {whole fraction rest : List Char} (hne : whole ++ fraction ≠ [])
    (hwhole : ∀ c ∈ whole, c.isDigit) (hfraction : ∀ c ∈ fraction, c.isDigit)
    (hrest : ∀ c ∈ rest.head?, c.isDigit = false) :
    readDecimal (whole ++ '.' :: (fraction ++ rest)) = (readExponent rest).map fun e =>
      ⟨Nat.ofDigitChars 10 (whole ++ fraction) 0, e - fraction.length⟩ := by
  have hpoint : ∀ c ∈ ('.' :: (fraction ++ rest)).head?, c.isDigit = false := by
    simp
  have hempty : (whole ++ fraction).isEmpty = false := by simpa using hne
  unfold readDecimal
  simp only [takeWhile_append_of_head hwhole hpoint, dropWhile_append_of_head hwhole hpoint,
    takeWhile_append_of_head hfraction hrest, dropWhile_append_of_head hfraction hrest, hempty]
  cases readExponent rest <;> rfl

/-- A literal without a point. -/
lemma readDecimal_whole {whole rest : List Char} (hne : whole ≠ [])
    (hwhole : ∀ c ∈ whole, c.isDigit)
    (hrest : ∀ c ∈ rest.head?, c.isDigit = false ∧ c ≠ '.') :
    readDecimal (whole ++ rest) = (readExponent rest).map fun e =>
      ⟨Nat.ofDigitChars 10 whole 0, e⟩ := by
  have hdigit : ∀ c ∈ rest.head?, c.isDigit = false := fun c hc => (hrest c hc).1
  unfold readDecimal
  simp only [takeWhile_append_of_head hwhole hdigit, dropWhile_append_of_head hwhole hdigit]
  split
  · exact absurd rfl (hrest '.' rfl).2
  · cases readExponent rest <;> simp [hne]

/-- Every text has a longest front of digits. -/
lemma exists_digits_append (cs : List Char) :
    ∃ digits rest, cs = digits ++ rest ∧ (∀ c ∈ digits, c.isDigit) ∧
      ∀ c ∈ rest.head?, c.isDigit = false := by
  refine ⟨cs.takeWhile Char.isDigit, cs.dropWhile Char.isDigit,
    List.takeWhile_append_dropWhile.symm, fun c => List.mem_takeWhile_imp, fun c hc => ?_⟩
  have hhead := List.head?_dropWhile_not Char.isDigit cs
  rw [Option.mem_def.1 hc] at hhead
  simpa using hhead

/-- What is read as a decimal is one. -/
lemma isDecimal_of_readDecimal {cs : List Char} {d : Decimal} (h : readDecimal cs = some d) :
    IsDecimal cs d := by
  -- the whole digits, the point with the digits behind it, and the rest
  obtain ⟨whole, tail, rfl, hwhole, htail⟩ := exists_digits_append cs
  have hparts : ∀ {point fraction rest}, IsFraction point fraction → tail = point ++ rest →
      ((readExponent rest).bind fun e => if (whole ++ fraction).isEmpty then none
        else some (⟨Nat.ofDigitChars 10 (whole ++ fraction) 0, e - fraction.length⟩ : Decimal)) =
          some d → IsDecimal (whole ++ tail) d := by
    rintro point fraction rest hpoint rfl hread
    obtain ⟨e, he, hd⟩ := Option.bind_eq_some_iff.1 hread
    obtain ⟨hne, hd⟩ := Option.ite_none_left_eq_some.1 hd
    rw [ofDigitChars_eq_decimalValue] at hd
    exact ⟨whole, point, fraction, rest, e, hwhole, hpoint, by simpa using hne,
      readExponent_eq_some_iff.1 he, (List.append_assoc _ _ _).symm, (Option.some.inj hd).symm⟩
  unfold readDecimal at h
  simp only [takeWhile_append_of_head hwhole htail, dropWhile_append_of_head hwhole htail] at h
  split at h
  · rename_i behind
    obtain ⟨fraction, rest, rfl, hfraction, hrest⟩ := exists_digits_append behind
    rw [takeWhile_append_of_head hfraction hrest, dropWhile_append_of_head hfraction hrest] at h
    exact hparts (.point hfraction) rfl h
  · exact hparts .none rfl h

/-- A literal without underscores is read when it has the form of one. -/
lemma readDecimal_eq_some_iff {cs : List Char} {d : Decimal} :
    readDecimal cs = some d ↔ IsDecimal cs d := by
  refine ⟨isDecimal_of_readDecimal, ?_⟩
  rintro ⟨whole, point, fraction, exponent, e, hwhole, hpoint, hne, hexponent, rfl, rfl⟩
  have hread := readExponent_eq_some_iff.2 hexponent
  cases hpoint with
  | none =>
    rw [List.append_nil] at hne ⊢
    rw [readDecimal_whole hne hwhole hexponent.head, hread, Option.map_some,
      ofDigitChars_eq_decimalValue, List.length_nil, Nat.cast_zero, sub_zero]
  | point hdigits =>
    rw [List.append_assoc, List.cons_append,
      readDecimal_point hne hwhole hdigits fun c hc => (hexponent.head c hc).1, hread,
      Option.map_some, ofDigitChars_eq_decimalValue]

namespace IsDecimal

variable {cs : List Char} {d : Decimal}

lemma isNumberChar (h : IsDecimal cs d) : ∀ c ∈ cs, isNumberChar c ∧ c ≠ '_' := by
  obtain ⟨whole, point, fraction, exponent, e, hwhole, hpoint, -, hexponent, rfl, -⟩ := h
  have hdigits : ∀ {ds : List Char}, (∀ c ∈ ds, c.isDigit) →
      ∀ c ∈ ds, Text.isNumberChar c ∧ c ≠ '_' :=
    fun hds c hc => isNumberChar_of_isDigit (hds c hc)
  rw [List.forall_mem_append, List.forall_mem_append]
  refine ⟨⟨hdigits hwhole, ?_⟩, hexponent.isNumberChar⟩
  cases hpoint with
  | none => simp
  | point hfraction => exact List.forall_mem_cons.2 ⟨by decide, hdigits hfraction⟩

lemma isWordChar (h : IsDecimal cs d) : ∀ c ∈ cs, isWordChar c := fun c hc =>
  isWordChar_of_isNumberChar (h.isNumberChar c hc).1 (h.isNumberChar c hc).2

/-- A literal begins with a digit or with the point. -/
lemma exists_eq_cons (h : IsDecimal cs d) : ∃ c rest, cs = c :: rest ∧ (c.isDigit ∨ c = '.') := by
  obtain ⟨whole, point, fraction, exponent, e, hwhole, hpoint, hne, -, rfl, -⟩ := h
  cases whole with
  | cons c whole => exact ⟨c, _, rfl, Or.inl (hwhole c List.mem_cons_self)⟩
  | nil =>
    cases hpoint with
    | none => exact absurd rfl hne
    | point => exact ⟨'.', _, rfl, Or.inr rfl⟩

end IsDecimal

/-! ### Underscores -/

lemma mem_plain_iff {cs : List Char} {c : Char} : c ∈ plain cs ↔ c ∈ cs ∧ c ≠ '_' := by
  simp [plain]

lemma plain_eq_self {cs : List Char} (h : '_' ∉ cs) : plain cs = cs := by
  refine List.filter_eq_self.2 fun c hc => ?_
  simpa using ne_of_mem_of_not_mem hc h

lemma plain_append (cs ds : List Char) : plain (cs ++ ds) = plain cs ++ plain ds :=
  List.filter_append cs ds

lemma separatesDigits_of_not_mem {front cs : List Char} (h : '_' ∉ cs) :
    SeparatesDigits front cs := by
  rintro before after rfl
  simp at h

/-- An underscore at the front needs a digit on both sides, and every character is in front of those
behind it. -/
lemma separatesDigits_cons_iff {front cs : List Char} {c : Char} :
    SeparatesDigits front (c :: cs) ↔
      (c = '_' → front.getLast?.any Char.isDigit ∧ cs.head?.any Char.isDigit) ∧
        SeparatesDigits (front ++ [c]) cs := by
  constructor
  · intro h
    refine ⟨?_, ?_⟩
    · rintro rfl
      simpa using h [] cs rfl
    · rintro before after rfl
      simpa using h (c :: before) after rfl
  · rintro ⟨hc, hcs⟩ before after h
    cases before with
    | nil =>
      obtain ⟨rfl, rfl⟩ := List.cons.inj h
      simpa using hc rfl
    | cons d before =>
      obtain ⟨rfl, rfl⟩ := List.cons.inj h
      simpa using hcs before after rfl

/-- The underscores can be dropped when each of them stands between two digits. -/
lemma dropSeparators_eq_some_iff_separates {front cs ds : List Char} :
    dropSeparators Char.isDigit (front.getLast?.any Char.isDigit) cs = some ds ↔
      SeparatesDigits front cs ∧ ds = plain cs := by
  induction cs generalizing front ds with
  | nil =>
    have hnil : SeparatesDigits front [] := separatesDigits_of_not_mem List.not_mem_nil
    simp only [dropSeparators, Option.some.injEq, hnil, true_and, plain, List.filter_nil]
    exact eq_comm
  | cons c cs ih =>
    have hlast : (front ++ [c]).getLast?.any Char.isDigit = c.isDigit := by simp
    have hrest := @ih (front ++ [c])
    rw [hlast] at hrest
    rw [separatesDigits_cons_iff, dropSeparators]
    by_cases hc : c = '_'
    · subst hc
      have hplain : plain ('_' :: cs) = plain cs := by simp [plain]
      have hdigit : '_'.isDigit = false := by decide
      rw [hdigit] at hrest
      rw [if_pos rfl, Option.ite_none_right_eq_some, hrest, hplain, Bool.and_eq_true]
      simp [and_assoc]
    · have hplain : plain (c :: cs) = c :: plain cs := by simp [plain, hc]
      rw [if_neg hc, Option.map_eq_some_iff, hplain]
      constructor
      · rintro ⟨_, hdrop, rfl⟩
        obtain ⟨hcs, rfl⟩ := hrest.1 hdrop
        exact ⟨⟨fun h => absurd h hc, hcs⟩, rfl⟩
      · rintro ⟨⟨-, hcs⟩, rfl⟩
        exact ⟨_, hrest.2 ⟨hcs, rfl⟩, rfl⟩

/-- Underscores are dropped exactly where all of them stand between digits. -/
lemma dropSeparators_false_eq_some_iff {cs ds : List Char} :
    dropSeparators Char.isDigit false cs = some ds ↔ SeparatesDigits [] cs ∧ ds = plain cs :=
  @dropSeparators_eq_some_iff_separates [] cs ds

/-- No underscore stands at the front, so the characters begin as they do without underscores. -/
lemma head?_plain {cs : List Char} (h : SeparatesDigits [] cs) : (plain cs).head? = cs.head? := by
  cases cs with
  | nil => rfl
  | cons c cs =>
    have hc : c ≠ '_' := fun hc => by simpa using ((separatesDigits_cons_iff.1 h).1 hc).1
    simp [plain, hc]

/-! ### Names -/

/-- Two letters have one small form, the small and the capital one. -/
lemma toLower_eq_iff {c d : Char} (hd : d.isLower) : c.toLower = d ↔ c = d ∨ c = d.toUpper := by
  have hlower : 'a'.val ≤ d.val ∧ d.val ≤ 'z'.val := by
    delta Char.isLower at hd
    simpa using hd
  unfold Char.toLower Char.toUpper
  rw [dif_pos hlower]
  simp only [UInt32.le_iff_toNat_le, Char.reduceVal, UInt32.reduceToNat] at hlower
  split_ifs with hupper <;>
  · simp only [UInt32.le_iff_toNat_le, Char.reduceVal, UInt32.reduceToNat, ge_iff_le] at hupper
    simp only [Char.ext_iff, ← UInt32.toNat_inj, UInt32.toNat_add, Char.reduceVal,
      UInt32.reduceSub, UInt32.reduceToNat]
    omega

/-- Small letters are compared when capital ones are made small. -/
lemma ofList_map_toLower_eq_iff {name : String} (hname : ∀ d ∈ name.toList, d.isLower)
    {cs : List Char} : String.ofList (cs.map Char.toLower) = name ↔ InAnyCase name cs := by
  have hlist : String.ofList (cs.map Char.toLower) = name ↔ cs.map Char.toLower = name.toList := by
    rw [← String.toList_inj, String.toList_ofList]
  rw [hlist, ← List.forall₂_eq_eq_eq, List.forall₂_map_left_iff]
  constructor
  · exact fun h => forall₂_imp_of_mem h fun c _ d hd => (toLower_eq_iff (hname d hd)).1
  · exact fun h => forall₂_imp_of_mem h fun c _ d hd => (toLower_eq_iff (hname d hd)).2

lemma InAnyCase.isAlpha {name : String} {cs : List Char} (h : InAnyCase name cs)
    (hname : ∀ d ∈ name.toList, d.isAlpha ∧ d.toUpper.isAlpha) : ∀ c ∈ cs, c.isAlpha := by
  unfold InAnyCase at h
  generalize name.toList = ds at h hname
  induction h with
  | nil => simp
  | cons hcd _ ih =>
    obtain ⟨hd, hname⟩ := List.forall_mem_cons.1 hname
    refine List.forall_mem_cons.2 ⟨?_, ih hname⟩
    rcases hcd with rfl | rfl
    · exact hd.1
    · exact hd.2

lemma isAlpha_eq_false_of_isDigit {c : Char} (h : c.isDigit) : c.isAlpha = false := by
  obtain ⟨hlow, hhigh⟩ := Char.isDigit_iff_toNat.1 h
  delta Char.isAlpha Char.isUpper Char.isLower
  simp only [Bool.or_eq_false_iff, Bool.and_eq_false_iff, decide_eq_false_iff_not,
    UInt32.le_iff_toNat_le, ge_iff_le, Char.toNat_val, Char.reduceVal, UInt32.reduceToNat,
    Char.reduceToNat] at hlow hhigh ⊢
  omega

namespace IsName

variable {negative : Bool} {cs : List Char} {x : Binary64}

lemma isAlpha (h : IsName negative cs x) : ∀ c ∈ cs, c.isAlpha := by
  cases h with
  | inf h => exact h.isAlpha (by simp)
  | infinity h => exact h.isAlpha (by simp)
  | nan h => exact h.isAlpha (by simp)

lemma isWordChar (h : IsName negative cs x) : ∀ c ∈ cs, Text.isWordChar c := by
  intro c hc
  simp [Text.isWordChar, Char.isAlphanum, h.isAlpha c hc]

lemma ne_nil (h : IsName negative cs x) : cs ≠ [] := by
  rintro rfl
  rcases h with h | h | h <;> cases h

end IsName

/-- Exactly the names of numbers are read, in any letter case. -/
lemma readSpecial_eq_some_iff {negative : Bool} {cs : List Char} {x : Binary64} :
    readSpecial negative cs = some x ↔ IsName negative cs x := by
  have hinf := @ofList_map_toLower_eq_iff "inf" (by simp) cs
  have hinfinity := @ofList_map_toLower_eq_iff "infinity" (by simp) cs
  have hnan := @ofList_map_toLower_eq_iff "nan" (by simp) cs
  unfold readSpecial
  dsimp only
  constructor
  · intro h
    by_cases hfirst : String.ofList (cs.map Char.toLower) = "inf" ∨
        String.ofList (cs.map Char.toLower) = "infinity"
    · rw [if_pos hfirst] at h
      cases h
      exact hfirst.elim (fun h => .inf (hinf.1 h)) fun h => .infinity (hinfinity.1 h)
    · rw [if_neg hfirst] at h
      obtain ⟨hname, hx⟩ := Option.ite_none_right_eq_some.1 h
      cases hx
      exact .nan (hnan.1 hname)
  · intro h
    cases h with
    | inf h => rw [if_pos (Or.inl (hinf.2 h))]
    | infinity h => rw [if_pos (Or.inr (hinfinity.2 h))]
    | nan h => rw [hnan.2 h, if_neg (by decide), if_pos rfl]

lemma isSome_readSpecial {negative : Bool} {cs : List Char} {x : Binary64}
    (h : IsName negative cs x) : (readSpecial false cs).isSome := by
  obtain ⟨y, hy⟩ : ∃ y, IsName false cs y := by
    cases h with
    | inf h => exact ⟨_, .inf h⟩
    | infinity h => exact ⟨_, .infinity h⟩
    | nan h => exact ⟨_, .nan h⟩
  rw [readSpecial_eq_some_iff.2 hy]
  rfl

/-! ### Reading -/

/-- Behind its sign a text begins as it does without underscores, and so the same sign is taken off
it without them. -/
lemma splitSign_plain {sign body : List Char} {negative : Bool} (hsign : IsSign sign negative)
    (hsplit : splitSign (sign ++ body) = (negative, body)) (hbody : SeparatesDigits [] body) :
    splitSign (sign ++ plain body) = (negative, plain body) := by
  cases hsign with
  | plus => rfl
  | minus => rfl
  | none =>
    refine IsSign.none.splitSign_append_of_head (fun hhead => ?_) fun hhead => ?_ <;>
    · rw [head?_plain hbody] at hhead
      obtain ⟨rest, rfl⟩ := List.head?_eq_some_iff.1 hhead
      simp [splitSign] at hsplit

/-- No underscore separates letters. -/
lemma not_mem_of_plain_isAlpha {cs : List Char} (hcs : SeparatesDigits [] cs)
    (halpha : ∀ c ∈ plain cs, c.isAlpha) : '_' ∉ cs := by
  intro hmem
  obtain ⟨before, after, rfl⟩ := List.append_of_mem hmem
  obtain ⟨-, hafter⟩ := hcs before after rfl
  cases after with
  | nil => cases hafter
  | cons c after =>
    have hdigit : c.isDigit := by simpa using hafter
    have hc := halpha c (mem_plain_iff.2 ⟨by simp, (isNumberChar_of_isDigit hdigit).2⟩)
    rw [isAlpha_eq_false_of_isDigit hdigit] at hc
    cases hc

/-- A text passes when what stands behind its sign is a name or has the characters of a literal, and
is then read without its underscores. -/
lemma readFloat_eq_some_iff_readNumber {s : String} {sign body : List Char} {negative : Bool}
    {x : Binary64} (hsign : IsSign sign negative) (hs : trim s.toList = sign ++ body)
    (hsplit : splitSign (sign ++ body) = (negative, body)) :
    readFloat s = some x ↔ ((readSpecial false body).isSome ∨ ∀ c ∈ body, isNumberChar c) ∧
      SeparatesDigits [] body ∧
      ((readSpecial negative (plain body)).or ((readDecimal (plain body)).map fun d =>
        Binary64.ofDecimal negative d.digits d.exponent)) = some x := by
  have hfilter : ¬((readSpecial false body).isNone && !body.all isNumberChar) = true ↔
      (readSpecial false body).isSome ∨ ∀ c ∈ body, isNumberChar c := by
    cases readSpecial false body <;> simp
  have hnumber : SeparatesDigits [] body → readNumber (sign ++ plain body) =
      (readSpecial negative (plain body)).or ((readDecimal (plain body)).map fun d =>
        Binary64.ofDecimal negative d.digits d.exponent) := by
    intro hseparates
    simp only [readNumber, splitSign_plain hsign hsplit hseparates, Option.map_eq_bind]
    rfl
  simp only [readFloat, hs, hsplit, Option.ite_none_left_eq_some, hfilter,
    hsign.dropSeparators_append, Option.bind_eq_some_iff, Option.map_eq_some_iff,
    dropSeparators_false_eq_some_iff]
  constructor
  · rintro ⟨hchars, _, ⟨_, ⟨hseparates, rfl⟩, rfl⟩, hread⟩
    exact ⟨hchars, hseparates, (hnumber hseparates).symm.trans hread⟩
  · rintro ⟨hchars, hseparates, hread⟩
    exact ⟨hchars, _, ⟨_, ⟨hseparates, rfl⟩, rfl⟩, (hnumber hseparates).trans hread⟩

/-- What is read as a float is one, apart from the white space around it. -/
lemma isFloat_of_readFloat {s : String} {x : Binary64} (h : readFloat s = some x) :
    IsFloat (trim s.toList) x := by
  obtain ⟨sign, hsign, hs⟩ := exists_isSign (trim s.toList)
  have hsplit := congrArg splitSign hs.symm
  rw [readFloat_eq_some_iff_readNumber hsign hs hsplit] at h
  obtain ⟨-, hseparates, hread⟩ := h
  rw [hs]
  rcases Option.or_eq_some_iff.1 hread with hspecial | ⟨-, hdecimal⟩
  · have hname := readSpecial_eq_some_iff.1 hspecial
    rw [plain_eq_self (not_mem_of_plain_isAlpha hseparates hname.isAlpha)] at hname
    exact .name hsign hname
  · obtain ⟨d, hd, rfl⟩ := Option.map_eq_some_iff.1 hdecimal
    exact .decimal hsign hseparates (readDecimal_eq_some_iff.1 hd)

/-- What stands behind the sign of a number does not begin with another one. -/
lemma splitSign_of_head {sign body : List Char} {negative : Bool} (hsign : IsSign sign negative)
    (hbody : ∀ c ∈ body.head?, c.isAlpha ∨ c.isDigit ∨ c = '.') :
    splitSign (sign ++ body) = (negative, body) := by
  refine hsign.splitSign_append_of_head (fun hplus => ?_) fun hminus => ?_
  · exact absurd (hbody _ hplus) (by decide)
  · exact absurd (hbody _ hminus) (by decide)

/-- A float is read, apart from the white space around it. -/
lemma readFloat_of_isFloat {s : String} {x : Binary64} (h : IsFloat (trim s.toList) x) :
    readFloat s = some x := by
  generalize hs : trim s.toList = cs at h
  cases h with
  | @name sign body negative _ hsign hname =>
    have hsplit := splitSign_of_head hsign fun c hc =>
      Or.inl (hname.isAlpha c (List.mem_of_mem_head? hc))
    have hunderscore : '_' ∉ body := fun hmem =>
      ne_underscore_of_isWordChar (hname.isWordChar _ hmem) rfl
    rw [readFloat_eq_some_iff_readNumber hsign hs hsplit, plain_eq_self hunderscore,
      readSpecial_eq_some_iff.2 hname, Option.some_or]
    exact ⟨Or.inl (isSome_readSpecial hname), separatesDigits_of_not_mem hunderscore, rfl⟩
  | @decimal sign body negative d hsign hseparates hdecimal =>
    obtain ⟨c, rest, hplain, hc⟩ := hdecimal.exists_eq_cons
    have hhead : body.head? = some c := by rw [← head?_plain hseparates, hplain, List.head?_cons]
    have hsplit : splitSign (sign ++ body) = (negative, body) := by
      refine splitSign_of_head hsign fun c' hc' => ?_
      obtain rfl := Option.some.inj (hhead.symm.trans hc')
      exact Or.inr hc
    -- a name is made of letters, and `c` is none
    have hspecial : readSpecial negative (plain body) = none := by
      rw [Option.eq_none_iff_forall_ne_some]
      intro x hx
      have halpha := (readSpecial_eq_some_iff.1 hx).isAlpha c (hplain ▸ List.mem_cons_self)
      rcases hc with hdigit | rfl
      · rw [isAlpha_eq_false_of_isDigit hdigit] at halpha
        cases halpha
      · exact absurd halpha (by decide)
    have hchars : ∀ c ∈ body, isNumberChar c := by
      intro c hmem
      by_cases hne : c = '_'
      · subst hne
        decide
      · exact (hdecimal.isNumberChar c (mem_plain_iff.2 ⟨hmem, hne⟩)).1
    rw [readFloat_eq_some_iff_readNumber hsign hs hsplit, hspecial,
      readDecimal_eq_some_iff.2 hdecimal]
    exact ⟨Or.inr hchars, hseparates, rfl⟩

namespace IsFloat

variable {cs : List Char} {x : Binary64}

lemma ne_nil (h : IsFloat cs x) : cs ≠ [] := by
  cases h with
  | name _ hname => exact List.append_ne_nil_of_right_ne_nil _ hname.ne_nil
  | decimal _ _ hdecimal =>
    obtain ⟨c, rest, hplain, -⟩ := hdecimal.exists_eq_cons
    refine List.append_ne_nil_of_right_ne_nil _ ?_
    rintro rfl
    cases hplain

lemma isWordChar (h : IsFloat cs x) : ∀ c ∈ cs, Text.isWordChar c ∨ c = '_' := by
  cases h with
  | name hsign hname =>
    exact List.forall_mem_append.2 ⟨fun c hc => Or.inl (hsign.isWordChar c hc),
      fun c hc => Or.inl (hname.isWordChar c hc)⟩
  | decimal hsign _ hdecimal =>
    refine List.forall_mem_append.2 ⟨fun c hc => Or.inl (hsign.isWordChar c hc), fun c hc => ?_⟩
    by_cases hne : c = '_'
    · exact Or.inr hne
    · exact Or.inl (hdecimal.isWordChar c (mem_plain_iff.2 ⟨hc, hne⟩))

lemma isBlank (h : IsFloat cs x) : ∀ c ∈ cs, isBlank c = false := by
  intro c hc
  rcases h.isWordChar c hc with hword | rfl
  · exact isBlank_of_isWordChar hword
  · decide

/-- A number is the same without its underscores. -/
lemma plain (h : IsFloat cs x) : IsFloat (Text.plain cs) x := by
  have hword : ∀ {ds : List Char}, (∀ c ∈ ds, Text.isWordChar c) → Text.plain ds = ds :=
    fun hds => plain_eq_self fun hmem => ne_underscore_of_isWordChar (hds _ hmem) rfl
  cases h with
  | name hsign hname =>
    rw [plain_append, hword hsign.isWordChar, hword hname.isWordChar]
    exact .name hsign hname
  | @decimal sign body _ _ hsign _ hdecimal =>
    have hmem : '_' ∉ Text.plain body := fun h => (mem_plain_iff.1 h).2 rfl
    rw [plain_append, hword hsign.isWordChar]
    refine .decimal hsign (separatesDigits_of_not_mem hmem) ?_
    rwa [plain_eq_self hmem]

end IsFloat

/-- Trimming takes off exactly the padding. -/
lemma isPaddedFloat_iff {s : String} {x : Binary64} :
    IsPaddedFloat s x ↔ IsFloat (trim s.toList) x :=
  exists_padded_iff fun h => ⟨h.ne_nil, h.isBlank⟩

/-- Exactly the padded floats are read. -/
lemma readFloat_eq_some_iff {s : String} {x : Binary64} :
    readFloat s = some x ↔ IsPaddedFloat s x := by
  rw [isPaddedFloat_iff]
  exact ⟨isFloat_of_readFloat, readFloat_of_isFloat⟩

lemma readFloat_ofList {cs : List Char} {x : Binary64} (h : IsFloat cs x) :
    readFloat (String.ofList cs) = some x := by
  have htrim := @trim_append [] cs [] (by simp) (by simp) h.ne_nil h.isBlank
  rw [List.nil_append, List.append_nil] at htrim
  apply readFloat_of_isFloat
  rwa [String.toList_ofList, htrim]

/-- The texts that read as a binary64 number are those that are the number by name or as a decimal
literal, with any white space around it; every other text is not read. What is read of a text is
what is read of it without the white space and without the underscores. -/
theorem readFloat_reads_padded_floats :
    (∀ s x, readFloat s = some x ↔ IsPaddedFloat s x) ∧
      ∀ s x, readFloat s = some x → readFloat (String.ofList (plain (trim s.toList))) = some x := by
  refine ⟨fun s x => readFloat_eq_some_iff, fun s x h => ?_⟩
  exact readFloat_ofList (isFloat_of_readFloat h).plain

/-- A negative number with underscores in all its parts and white space around it. -/
theorem readFloat_grouped_literal :
    let s := "\u00a0-1_0.5_0E+0_1\n"
    let x : Binary64 := ⟨0xc05a400000000000⟩
    readFloat s = some x ∧ IsPaddedFloat s x ∧
      readFloat (String.ofList (plain (trim s.toList))) = some x := by
  intro s x
  have hread : readFloat s = some x := by decide +kernel
  obtain ⟨hiff, hplain⟩ := readFloat_reads_padded_floats
  exact ⟨hread, (hiff s x).1 hread, hplain s x hread⟩

example : readFloat "-iNFinity" = some (Binary64.infinity true) ∧ readFloat "+-1" = none ∧
    readFloat "1_.5" = none ∧ readFloat "1_e5" = none ∧ readFloat "." = none := by
  decide +kernel

end Text

end Dynval
