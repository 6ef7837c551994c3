import Dynval.Proofs.Value.Facet

/-!
# The order of keys is lawful

Every key has a code, a list of integers that starts with the rank of its kind, and keys are ordered
as their codes are, lexicographically. So the order of keys is total, and only equal keys compare as
equal.
-/

namespace Dynval

/-- No two numbers with different bits have one place in the order of all bit patterns. -/
lemma Binary64.totalKey_injective : Function.Injective totalKey := by
  intro x y h
  suffices hsame : x.isNegative = y.isNegative ∧ x.magnitude = y.magnitude by
    rw [← ofMagnitude_magnitude x, ← ofMagnitude_magnitude y, hsame.1, hsame.2]
  unfold totalKey at h
  cases hx : x.isNegative <;> cases hy : y.isNegative <;> simp [hx, hy] at h ⊢ <;> omega

namespace Text

lemma utf8_injective : Function.Injective utf8 := by
  intro s t h
  rw [← String.toByteArray_inj]
  exact ByteArray.ext (Array.toList_inj.1 h)

end Text

def byteCode (data : List UInt8) : List Int :=
  data.map fun b => (b.toNat : Int)

lemma byteCode_injective : Function.Injective byteCode := by
  refine List.map_injective_iff.2 fun a b h => ?_
  exact UInt8.toNat_inj.1 (Int.ofNat.inj h)

/-- Bytes are ordered as numbers. -/
lemma compare_byte_eq (a b : UInt8) : compare a b = compare (a.toNat : Int) (b.toNat : Int) := by
  simp only [compare, compareOfLessAndEq, UInt8.lt_iff_toNat_lt, ← UInt8.toNat_inj, Int.ofNat_lt,
    Int.ofNat_inj]

/-- Byte strings are ordered as lists of integers. -/
lemma compareBytes_eq (xs ys : List UInt8) :
    compareBytes xs ys = List.compareLex compare (byteCode xs) (byteCode ys) := by
  rw [compareBytes, compareLex_eq]
  induction xs generalizing ys with
  | nil => cases ys <;> rfl
  | cons x xs ih =>
    cases ys with
    | nil => rfl
    | cons y ys =>
      simp only [byteCode, List.map_cons, List.compareLex_cons_cons] at ih ⊢
      rw [compare_byte_eq, ih]

namespace Key

/-- A list of integers that stands for a key. -/
def code : Key → List Int
  | .nil => [0]
  | .int i => [1, i.toInt]
  | .float x => [2, x.totalKey]
  | .str s => 3 :: byteCode (Text.utf8 s)
  | .bytes data => 4 :: byteCode data

/-- No two keys have one code. -/
lemma code_injective : Function.Injective code := by
  intro k l h
  cases k <;> cases l <;> simp [code] at h ⊢
  case int.int => exact Int64.toInt_inj.1 h
  case float.float => exact Binary64.totalKey_injective h
  case str.str => exact Text.utf8_injective (byteCode_injective h)
  case bytes.bytes => exact byteCode_injective h

/-- Keys are ordered as their codes are. -/
lemma compare_eq (k l : Key) : k.compare l = List.compareLex Ord.compare k.code l.code := by
  cases k <;> cases l
  case int.int => simp [compare, code, List.compareLex_cons_cons, List.compareLex_nil_nil]
  case float.float =>
    simp [compare, code, Binary64.totalCompare, List.compareLex_cons_cons, List.compareLex_nil_nil]
  case str.str => simp [compare, code, Text.compare, compareBytes_eq, List.compareLex_cons_cons]
  case bytes.bytes => simp [compare, code, compareBytes_eq, List.compareLex_cons_cons]
  all_goals rfl

instance : Std.TransCmp Key.compare where
  eq_swap := by
    intro k l
    rw [compare_eq, compare_eq]
    exact Std.OrientedCmp.eq_swap
  isLE_trans := by
    intro k l m hkl hlm
    rw [compare_eq] at hkl hlm ⊢
    exact Std.TransCmp.isLE_trans hkl hlm

instance : Std.LawfulEqCmp Key.compare where
  compare_self := by
    intro k
    rw [compare_eq]
    exact Std.ReflCmp.compare_self
  eq_of_compare := by
    intro k l h
    rw [compare_eq] at h
    exact code_injective (Std.LawfulEqCmp.eq_of_compare h)

@[simp] lemma compare_self (k : Key) : k.compare k = .eq :=
  Std.ReflCmp.compare_self

end Key

end Dynval
