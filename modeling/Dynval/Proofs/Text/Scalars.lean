import Mathlib.Data.String.Basic
import Dynval.Text.Basic

/-!
# Texts are addressed by their characters

Length, element and slice of a text are those of the list of its characters. A text of one-byte
characters has one byte for each of them, so a position is its own byte offset. In any other text
the offset at a position is the size of the characters before it (`Text.getD_offsets`), and there
the walk over the offsets arrives (`Text.scalarBounds_eq`).
-/

namespace Dynval.Text

variable {c : Char} {cs : List Char} {s : String}

/-! ### Bytes and characters -/

lemma utf8_eq (s : String) : utf8 s = s.toList.flatMap String.utf8EncodeChar := by
  obtain ⟨cs, rfl⟩ := s.exists_eq_ofList
  simp [utf8, String.toUTF8, List.utf8Encode]

lemma utf8ByteSize_eq (s : String) : s.utf8ByteSize = String.utf8Len s.toList := by
  rw [← String.utf8ByteSize_ofList, String.ofList_toList]

/-- A character has only bytes below 128 if it has one byte: a longer one starts with a byte that is
at least 192. -/
lemma forall_utf8EncodeChar_lt_iff :
    (∀ b ∈ String.utf8EncodeChar c, b < 128) ↔ c.utf8Size = 1 := by
  rw [Char.utf8Size_eq_one_iff, UInt32.le_iff_toNat_le, Char.toNat_val]
  simp only [String.utf8EncodeChar, UInt8.lt_iff_toNat_lt, Char.toNat_val]
  split_ifs <;> simp <;> omega

/-- A text is ASCII when all its characters take one byte. -/
lemma isAscii_iff : isAscii s ↔ ∀ c ∈ s.toList, c.utf8Size = 1 := by
  simp only [isAscii, utf8_eq, List.all_eq_true, List.mem_flatMap, decide_eq_true_eq,
    ← forall_utf8EncodeChar_lt_iff]
  constructor
  · exact fun h c hc b hb => h b ⟨c, hc, hb⟩
  · rintro h b ⟨c, hc, hb⟩
    exact h c hc b hb

/-! ### Reading bytes

The bytes of characters read back as the characters, so the replacement character stands for nothing
where the bytes are those of a text. -/

/-- Four bytes are enough to read the first character. -/
lemma firstChar?_append (c : Char) (rest : List UInt8) :
    firstChar? (String.utf8EncodeChar c ++ rest) = some c := by
  have hlength : (String.utf8EncodeChar c).length ≤ 4 := by
    rw [String.length_utf8EncodeChar]
    exact c.utf8Size_le_four
  rw [firstChar?, List.take_append, List.take_of_length_le hlength, List.toByteArray_append,
    ByteArray.utf8DecodeChar?_utf8EncodeChar_append]

/-- An encoded character in front is decoded. -/
lemma decodeChars_append (c : Char) (rest : List UInt8) :
    decodeChars (String.utf8EncodeChar c ++ rest) = c :: decodeChars rest := by
  have hfirst := firstChar?_append c rest
  have hlength := String.length_utf8EncodeChar c
  obtain ⟨b, bytes, hbytes⟩ := List.exists_cons_of_ne_nil (String.utf8EncodeChar_ne_nil (c := c))
  rw [hbytes, List.cons_append] at hfirst ⊢
  rw [hbytes, List.length_cons] at hlength
  rw [decodeChars, hfirst]
  simp only [← hlength, Nat.add_sub_cancel, List.drop_left]

lemma decodeChars_flatMap (cs : List Char) :
    decodeChars (cs.flatMap String.utf8EncodeChar) = cs := by
  induction cs with
  | nil => rw [List.flatMap_nil, decodeChars]
  | cons c cs ih => rw [List.flatMap_cons, decodeChars_append, ih]

/-- The bytes of a text decode to the text. -/
lemma decode_utf8 (t : String) : decode (utf8 t) = t := by
  rw [utf8_eq, decode, decodeChars_flatMap, String.ofList_toList]

/-! ### One-byte characters -/

lemma utf8Len_eq_length (h : ∀ c ∈ cs, c.utf8Size = 1) : String.utf8Len cs = cs.length := by
  induction cs with
  | nil => rfl
  | cons c cs ih =>
    obtain ⟨hc, hcs⟩ := List.forall_mem_cons.1 h
    rw [String.utf8Len_cons, ih hcs, hc, List.length_cons]

lemma utf8_of_isAscii (h : isAscii s) : utf8 s = s.toList.map fun c => c.val.toUInt8 := by
  rw [utf8_eq, List.map_eq_flatMap]
  exact List.flatMap_congr fun c hc => String.utf8EncodeChar_eq_singleton (isAscii_iff.1 h c hc)

lemma ofNat_toUInt8 (h : c.utf8Size = 1) : Char.ofNat c.val.toUInt8.toNat = c := by
  rw [Char.utf8Size_eq_one_iff, UInt32.le_iff_toNat_le, Char.toNat_val] at h
  have hcode : c.toNat ≤ 127 := h
  have hbyte : c.val.toUInt8.toNat = c.toNat := by
    rw [UInt32.toNat_toUInt8, Char.toNat_val]
    omega
  rw [hbyte, Char.ofNat_toNat]

/-! ### Length and element -/

lemma length_eq (s : String) : length s = s.toList.length := by
  unfold length
  split_ifs with h
  · rw [utf8ByteSize_eq, utf8Len_eq_length (isAscii_iff.1 h)]
  · rfl

lemma get?_eq (s : String) (i : Nat) : get? s i = s.toList[i]? := by
  unfold get?
  split_ifs with h
  · rw [utf8_of_isAscii h, List.getElem?_map, Option.map_map]
    cases hc : s.toList[i]? with
    | none => rfl
    | some c => exact congrArg some (ofNat_toUInt8 (isAscii_iff.1 h c (List.mem_of_getElem? hc)))
  · rfl

/-! ### Slices -/

/-- The offset at a position is the size of the characters before it; past the end that is the size
of the whole text. -/
lemma getD_offsets (start i : Nat) (cs : List Char) :
    (offsets start cs).getD i (start + String.utf8Len cs) =
      start + String.utf8Len (cs.take i) := by
  induction cs generalizing start i with
  | nil => cases i <;> simp [offsets]
  | cons c cs ih =>
    cases i with
    | zero => simp [offsets]
    | succ i =>
      have hsize : start + String.utf8Len (c :: cs) = start + c.utf8Size + String.utf8Len cs := by
        rw [String.utf8Len_cons]
        omega
      rw [offsets, List.getD_cons_succ, hsize, ih, List.take_succ_cons, String.utf8Len_cons]
      omega

/-- Without longer characters the offset at a position is the position, up to the end. -/
lemma min_utf8ByteSize (h : isAscii s) (i : Nat) :
    min i s.utf8ByteSize = String.utf8Len (s.toList.take i) := by
  have hs := isAscii_iff.1 h
  rw [utf8ByteSize_eq, utf8Len_eq_length hs,
    utf8Len_eq_length fun c hc => hs c (List.mem_of_mem_take hc), List.length_take]

/-- The bytes between the offsets of two positions are the characters between them. -/
lemma extract_utf8Len (s : String) {lo hi : Nat} (h : lo ≤ hi) :
    String.Pos.Raw.extract s ⟨String.utf8Len (s.toList.take lo)⟩
      ⟨String.utf8Len (s.toList.take hi)⟩ = String.ofList (s.toList.extract lo hi) := by
  have htake : s.toList.take lo ++ s.toList.extract lo hi = s.toList.take hi := by
    rw [List.extract_eq_take_drop, ← List.take_add, Nat.add_sub_cancel' h]
  have hparts := String.extract_of_valid (s.toList.take lo) (s.toList.extract lo hi)
    (s.toList.drop hi)
  rwa [← String.utf8Len_append, htake, List.take_append_drop, String.ofList_toList] at hparts

/-- Walking to a position finds the item there and leaves those behind it. -/
lemma walkTo_eq {α : Type} (n : Nat) (xs : List α) : walkTo n xs = (xs[n]?, xs.drop (n + 1)) := by
  fun_induction walkTo n xs with
  | case1 n => simp
  | case2 x xs => simp
  | case3 n x xs ih => rw [ih, List.getElem?_cons_succ, List.drop_succ_cons]

/-- Both walks end at the offset of their position: the second one starts behind the first offset,
so it has one item less to pass. -/
lemma scalarBounds_eq (s : String) {lo hi : Nat} (h : lo < hi) :
    scalarBounds s lo hi =
      (String.utf8Len (s.toList.take lo), String.utf8Len (s.toList.take hi)) := by
  have hoffset (i : Nat) : (offsets 0 s.toList)[i]?.getD s.utf8ByteSize =
      String.utf8Len (s.toList.take i) := by
    have hi := getD_offsets 0 i s.toList
    rwa [Nat.zero_add, Nat.zero_add, ← utf8ByteSize_eq, List.getD_eq_getElem?_getD] at hi
  have hwalk : lo + 1 + (hi - lo - 1) = hi := by omega
  simp only [scalarBounds, walkTo_eq, List.getElem?_drop, hwalk, hoffset]

/-- In a text of one-byte characters positions are offsets. -/
lemma byteBounds_eq (h : isAscii s) (lo hi : Nat) :
    byteBounds s lo hi =
      (String.utf8Len (s.toList.take lo), String.utf8Len (s.toList.take hi)) := by
  rw [byteBounds, min_utf8ByteSize h, min_utf8ByteSize h]

/-- On either way a slice has the characters between the positions. -/
lemma slice_eq (s : String) (lo hi : Nat) :
    slice s lo hi = String.ofList (s.toList.extract lo hi) := by
  unfold slice
  split_ifs with hempty hascii
  · rw [List.extract_eq_take_drop, Nat.sub_eq_zero_of_le hempty, List.take_zero, String.ofList_nil]
  · simp only [byteBounds_eq hascii, extract_utf8Len s (Nat.le_of_not_le hempty)]
  · simp only [scalarBounds_eq s (Nat.lt_of_not_le hempty),
      extract_utf8Len s (Nat.le_of_not_le hempty)]

lemma toList_slice (s : String) (lo hi : Nat) :
    (slice s lo hi).toList = s.toList.extract lo hi := by
  rw [slice_eq, String.toList_ofList]

/-! ### Both ways to address a text -/

/-- Whether two byte offsets cut the characters from `lo` up to `hi` out of a text: both offsets lie
between two characters of the text or at an end of it, the first is not behind the second, and the
bytes between them are those characters. -/
structure Cuts (s : String) (lo hi : Nat) (bounds : Nat × Nat) : Prop where
  start_isValid : String.Pos.Raw.IsValid s ⟨bounds.1⟩
  stop_isValid : String.Pos.Raw.IsValid s ⟨bounds.2⟩
  start_le_stop : bounds.1 ≤ bounds.2
  extract_eq : String.Pos.Raw.extract s ⟨bounds.1⟩ ⟨bounds.2⟩ =
    String.ofList (s.toList.extract lo hi)

/-- The bytes of the first characters end between two characters. -/
lemma isValid_utf8Len_take (s : String) (i : Nat) :
    String.Pos.Raw.IsValid s ⟨String.utf8Len (s.toList.take i)⟩ := by
  rw [String.Pos.Raw.isValid_iff_exists_append]
  refine ⟨String.ofList (s.toList.take i), String.ofList (s.toList.drop i), ?_, ?_⟩
  · rw [← String.ofList_append, List.take_append_drop, String.ofList_toList]
  · rw [String.rawEndPos, String.utf8ByteSize_ofList]

lemma cuts_utf8Len_take (s : String) {lo hi : Nat} (h : lo ≤ hi) :
    Cuts s lo hi (String.utf8Len (s.toList.take lo), String.utf8Len (s.toList.take hi)) where
  start_isValid := isValid_utf8Len_take s lo
  stop_isValid := isValid_utf8Len_take s hi
  start_le_stop := by
    have htake : s.toList.take lo = (s.toList.take hi).take lo := by
      rw [List.take_take, Nat.min_eq_left h]
    have hsplit := congrArg String.utf8Len (List.take_append_drop lo (s.toList.take hi))
    rw [String.utf8Len_append, ← htake] at hsplit
    exact hsplit ▸ Nat.le_add_right _ _
  extract_eq := extract_utf8Len s h

lemma getElem?_extract_eq {α : Type} (xs : List α) (lo hi p : Nat) :
    (xs.extract lo hi)[p]? = if lo + p < min hi xs.length then xs[lo + p]? else none := by
  rw [List.extract_eq_take_drop, List.getElem?_take, List.getElem?_drop]
  split_ifs with htake hinside hinside
  · rfl
  · exact List.getElem?_eq_none (by omega)
  · omega
  · rfl

/-- A text is addressed by its characters, whether by its bytes or by the offsets of its characters.
Its length is the number of characters, its element at a position is the character there, and a
slice holds the characters from `lo` on that are below `hi` and below the length. A slice is cut at
byte offsets that lie in the text and between characters: through the offsets of its characters for
every text, and through its bytes for a text of one-byte characters. -/
theorem addressed_by_scalars_on_either_way (s : String) :
    length s = s.toList.length ∧
    (∀ i, get? s i = s.toList[i]?) ∧
    (∀ lo hi p, (slice s lo hi).toList[p]? =
      if lo + p < min hi s.toList.length then s.toList[lo + p]? else none) ∧
    (∀ lo hi, lo < hi → Cuts s lo hi (scalarBounds s lo hi)) ∧
    (∀ lo hi, lo < hi → isAscii s → Cuts s lo hi (byteBounds s lo hi)) := by
  refine ⟨length_eq s, get?_eq s, fun lo hi p => ?_, fun lo hi h => ?_, fun lo hi h hascii => ?_⟩
  · rw [toList_slice, getElem?_extract_eq]
  · rw [scalarBounds_eq s h]
    exact cuts_utf8Len_take s h.le
  · rw [byteBounds_eq hascii]
    exact cuts_utf8Len_take s h.le

/-- A text with characters of one, two and four bytes and one of one-byte characters, cut from their
second character to beyond their ends. -/
theorem wide_and_narrow_texts_cut_beyond_end :
    scalarBounds "aé😀b" 1 9 = (1, 8) ∧ Cuts "aé😀b" 1 9 (1, 8) ∧
      isAscii "abc" ∧ byteBounds "abc" 1 9 = (1, 3) ∧ Cuts "abc" 1 9 (1, 3) := by
  obtain ⟨-, -, -, hwide, -⟩ := addressed_by_scalars_on_either_way "aé😀b"
  obtain ⟨-, -, -, -, hnarrow⟩ := addressed_by_scalars_on_either_way "abc"
  exact ⟨rfl, hwide 1 9 (by decide), rfl, rfl, hnarrow 1 9 (by decide) rfl⟩

end Dynval.Text
