import Dynval.Proofs.Text.Scalars
import Dynval.Proofs.Value.Order
import Dynval.Value.Key

/-!
# Texts are ordered by their code points

Texts are compared by their bytes. A character is a first byte, and later bytes that hold six bits
of its code point each, the highest first. So two characters of one size compare by bytes as their
code points do, whatever follows them (`compareBytes_laterBytes_append`), and of two characters of
different sizes the longer one has the greater code point and the greater first byte
(`lt_of_utf8Size_lt`).
-/

namespace Dynval

/-- Numbers compare by what is above their lowest six bits, then by these. -/
lemma compare_eq_then_six_bits (m n : Nat) :
    compare m n = (compare (m / 64) (n / 64)).then (compare (m % 64) (n % 64)) := by
  obtain hlt | heq | hgt := Nat.lt_trichotomy (m / 64) (n / 64)
  · have hmn : m < n := by omega
    rw [Nat.compare_eq_lt.2 hlt, Nat.compare_eq_lt.2 hmn, Ordering.lt_then]
  · have hlt : m % 64 < n % 64 ↔ m < n := by omega
    have hgt : n % 64 < m % 64 ↔ n < m := by omega
    rw [Nat.compare_eq_eq.2 heq, Ordering.eq_then]
    simp only [Nat.compare_eq_ite_lt, hlt, hgt]
  · have hnm : n < m := by omega
    rw [Nat.compare_eq_gt.2 hgt, Nat.compare_eq_gt.2 hnm, Ordering.gt_then]

lemma compare_add_right (m n k : Nat) : compare (m + k) (n + k) = compare m n := by
  simp only [Nat.compare_eq_ite_lt, Nat.add_lt_add_iff_right]

lemma compare_ofNat {m n : Nat} (hm : m < 256) (hn : n < 256) :
    compare (UInt8.ofNat m) (UInt8.ofNat n) = compare m n := by
  simp only [compare, compareOfLessAndEq, UInt8.lt_iff_toNat_lt, ← UInt8.toNat_inj,
    UInt8.toNat_ofNat_of_lt' hm, UInt8.toNat_ofNat_of_lt' hn]

/-- The first bytes that differ decide. -/
lemma compareBytes_cons (x y : UInt8) (xs ys : List UInt8) :
    compareBytes (x :: xs) (y :: ys) = (compare x y).then (compareBytes xs ys) := rfl

namespace Text

variable {c d : Char}

def codePoints (s : String) : List Nat :=
  s.toList.map Char.toNat

/-! ### The bytes of a character -/

/-- The last `n` bytes of a character with the given code point. -/
def laterBytes : Nat → Nat → List UInt8
  | 0, _ => []
  | n + 1, code => laterBytes n (code / 64) ++ [UInt8.ofNat (code % 64 + 128)]

/-- What marks the first byte of a character with `n` later bytes. -/
def sizeMark : Nat → Nat
  | 0 => 0
  | 1 => 192
  | 2 => 224
  | _ => 240

/-- The first byte of a character: the bits that its later bytes leave, and the mark of its size. -/
def firstByte (c : Char) : Nat :=
  c.toNat / 64 ^ (c.utf8Size - 1) + sizeMark (c.utf8Size - 1)

/-- The code points of the characters of each size, and their first bytes. -/
lemma utf8Size_cases (c : Char) :
    c.utf8Size = 1 ∧ c.toNat < 128 ∧ firstByte c = c.toNat ∨
    c.utf8Size = 2 ∧ 128 ≤ c.toNat ∧ c.toNat < 2048 ∧ firstByte c = c.toNat / 64 + 192 ∨
    c.utf8Size = 3 ∧ 2048 ≤ c.toNat ∧ c.toNat < 65536 ∧ firstByte c = c.toNat / 4096 + 224 ∨
    c.utf8Size = 4 ∧ 65536 ≤ c.toNat ∧ c.toNat < 0x110000 ∧
      firstByte c = c.toNat / 262144 + 240 := by
  have hvalid : c.toNat < 0x110000 := by
    have := c.valid
    simp only [UInt32.isValidChar, Nat.isValidChar, Char.toNat_val] at this
    omega
  have h1 := c.utf8Size_eq_one_iff
  have h2 := c.utf8Size_eq_two_iff
  have h3 := c.utf8Size_eq_three_iff
  have h4 := c.utf8Size_eq_four_iff
  simp only [UInt32.le_iff_toNat_le, UInt32.lt_iff_toNat_lt, Char.toNat_val, UInt32.reduceToNat]
    at h1 h2 h3 h4
  unfold firstByte
  obtain hsize | hsize | hsize | hsize := c.utf8Size_eq
  · refine .inl ⟨hsize, Nat.lt_succ_of_le (h1.1 hsize), ?_⟩
    rw [hsize]
    exact Nat.div_one _
  · obtain ⟨hlo, hhi⟩ := h2.1 hsize
    refine .inr (.inl ⟨hsize, hlo, Nat.lt_succ_of_le hhi, ?_⟩)
    rw [hsize]
    rfl
  · obtain ⟨hlo, hhi⟩ := h3.1 hsize
    refine .inr (.inr (.inl ⟨hsize, hlo, Nat.lt_succ_of_le hhi, ?_⟩))
    rw [hsize]
    rfl
  · refine .inr (.inr (.inr ⟨hsize, h4.1 hsize, hvalid, ?_⟩))
    rw [hsize]
    rfl

/-- The first byte of a character and its later ones, at all sizes. -/
lemma utf8EncodeChar_eq (c : Char) :
    String.utf8EncodeChar c =
      UInt8.ofNat (firstByte c) :: laterBytes (c.utf8Size - 1) c.toNat := by
  simp only [String.utf8EncodeChar, Char.toNat_val]
  obtain ⟨hsize, hlt, hfirst⟩ | ⟨hsize, hle, hlt, hfirst⟩ | ⟨hsize, hle, hlt, hfirst⟩ |
    ⟨hsize, hle, hlt, hfirst⟩ := utf8Size_cases c
  · rw [if_pos (by omega), hsize, hfirst]
    rfl
  · have hhigh : c.toNat / 64 % 32 = c.toNat / 64 := by omega
    rw [if_neg (by omega), if_pos (by omega), hsize, hfirst, hhigh]
    rfl
  · have hhigh : c.toNat / 4096 % 16 = c.toNat / 4096 := by omega
    rw [if_neg (by omega), if_neg (by omega), if_pos (by omega), hsize, hfirst, hhigh]
    rfl
  · have hhigh : c.toNat / 262144 % 8 = c.toNat / 262144 := by omega
    have hsecond : c.toNat / 4096 = c.toNat / 64 / 64 := by omega
    rw [if_neg (by omega), if_neg (by omega), if_neg (by omega), hsize, hfirst, hhigh, hsecond]
    rfl

lemma firstByte_lt (c : Char) : firstByte c < 256 := by
  have := utf8Size_cases c
  omega

/-- A longer character has a greater code point and a greater first byte. -/
lemma lt_of_utf8Size_lt (h : c.utf8Size < d.utf8Size) :
    c.toNat < d.toNat ∧ firstByte c < firstByte d := by
  have hc := utf8Size_cases c
  have hd := utf8Size_cases d
  omega

/-! ### The order of bytes -/

/-- The bits above those in the later bytes, then the later bytes, compare as the code points. -/
lemma compareBytes_laterBytes_append (n v w : Nat) (xs ys : List UInt8) :
    (Ord.compare (v / 64 ^ n) (w / 64 ^ n)).then
        (compareBytes (laterBytes n v ++ xs) (laterBytes n w ++ ys)) =
      (Ord.compare v w).then (compareBytes xs ys) := by
  induction n generalizing v w xs ys with
  | zero => simp [laterBytes]
  | succ n ih =>
    have hlow (u : Nat) : u % 64 + 128 < 256 := by omega
    simp only [Nat.pow_succ', ← Nat.div_div_eq_div_mul, laterBytes, List.append_assoc,
      List.singleton_append]
    rw [ih, compareBytes_cons, compare_ofNat (hlow v) (hlow w), compare_add_right,
      ← Ordering.then_assoc, ← compare_eq_then_six_bits]

/-- Two characters and what follows them compare as their code points do, then as what follows. -/
lemma compareBytes_utf8EncodeChar_append (c d : Char) (xs ys : List UInt8) :
    compareBytes (String.utf8EncodeChar c ++ xs) (String.utf8EncodeChar d ++ ys) =
      (Ord.compare c.toNat d.toNat).then (compareBytes xs ys) := by
  rw [utf8EncodeChar_eq, utf8EncodeChar_eq, List.cons_append, List.cons_append, compareBytes_cons,
    compare_ofNat (firstByte_lt c) (firstByte_lt d)]
  obtain hlt | heq | hgt := Nat.lt_trichotomy c.utf8Size d.utf8Size
  · obtain ⟨hcode, hfirst⟩ := lt_of_utf8Size_lt hlt
    rw [Nat.compare_eq_lt.2 hcode, Nat.compare_eq_lt.2 hfirst, Ordering.lt_then, Ordering.lt_then]
  · -- one mark on both first bytes
    have hfirst : Ord.compare (firstByte c) (firstByte d) =
        Ord.compare (c.toNat / 64 ^ (c.utf8Size - 1)) (d.toNat / 64 ^ (c.utf8Size - 1)) := by
      rw [firstByte, firstByte, ← heq, compare_add_right]
    rw [hfirst, ← heq, compareBytes_laterBytes_append]
  · obtain ⟨hcode, hfirst⟩ := lt_of_utf8Size_lt hgt
    rw [Nat.compare_eq_gt.2 hcode, Nat.compare_eq_gt.2 hfirst, Ordering.gt_then, Ordering.gt_then]

/-- Encoded characters are ordered by their code points. -/
lemma compareBytes_flatMap (cs ds : List Char) :
    compareBytes (cs.flatMap String.utf8EncodeChar) (ds.flatMap String.utf8EncodeChar) =
      List.compareLex Ord.compare (cs.map Char.toNat) (ds.map Char.toNat) := by
  induction cs generalizing ds with
  | nil =>
    cases ds with
    | nil => rfl
    | cons d ds =>
      rw [List.flatMap_cons, utf8EncodeChar_eq]
      rfl
  | cons c cs ih =>
    cases ds with
    | nil =>
      rw [List.flatMap_cons, utf8EncodeChar_eq]
      rfl
    | cons d ds =>
      rw [List.flatMap_cons, List.flatMap_cons, compareBytes_utf8EncodeChar_append, ih,
        List.map_cons, List.map_cons, List.compareLex_cons_cons]

lemma compare_eq (s t : String) :
    compare s t = List.compareLex Ord.compare (codePoints s) (codePoints t) := by
  rw [compare, utf8_eq, utf8_eq, compareBytes_flatMap, codePoints, codePoints]

/-- Texts are compared as values by their bytes. -/
lemma compare_str [FloatPrinter] (store : Store) (s t : String) :
    (Value.str s).compare store (.str t) = .ok (some (compare s t)) := by
  rw [Value.compare_eq_ok_iff, Value.order_flat fun _ _ h => by cases h]
  rfl

/-- Comparing two texts by their bytes compares them by their code points: the lexicographic order
of the bytes is that of the code points, and so are the orders of two values and of two keys that
are these texts. -/
theorem byte_order_is_code_point_order [FloatPrinter] (s t : String) :
    compareBytes (utf8 s) (utf8 t) = List.compareLex Ord.compare (codePoints s) (codePoints t) ∧
    (∀ store, (Value.str s).compare store (.str t) =
      .ok (some (List.compareLex Ord.compare (codePoints s) (codePoints t)))) ∧
    (Key.str s).compare (.str t) = List.compareLex Ord.compare (codePoints s) (codePoints t) := by
  have hbytes := compare_eq s t
  refine ⟨hbytes, fun store => ?_, hbytes⟩
  rw [compare_str, hbytes]

-- the units of UTF-16 would put the second text first
example : compare "\uffffz" "😀" = .lt := by decide

end Text

end Dynval
