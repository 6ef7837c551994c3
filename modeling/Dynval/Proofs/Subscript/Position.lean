import Mathlib.Tactic.Lemma
import Mathlib.Tactic.SplitIfs
import Dynval.Subscript.Read

/-!
# Positions and bounds over the integers

What a subscript and a bound of a slice denote, as integers. A subscript lies inside a sequence of
`n` elements when it is at least `-n` and below `n`. A bound is moved to the nearest end, so that
the bounds of a slice are in order and inside.
-/

namespace Dynval

variable {index : Int64} {n p : Nat}

/-! ### Subscripts -/

/-- A negative subscript counts from the end. -/
lemma normalizeIndex_eq (index : Int64) (n : Nat) :
    normalizeIndex index n = if index.toInt < 0 then index.toInt + n else index.toInt := by
  simp only [normalizeIndex, Int64.lt_iff_toInt_lt, Int64.toInt_zero]

/-- A 64-bit length is added to negative subscripts only, so the sum has 64 bits as well. -/
lemma toInt_ofInt_normalizeIndex (hn : (n : Int) ≤ Int64.maxValue.toInt) (index : Int64) :
    (Int64.ofInt (normalizeIndex index n)).toInt = normalizeIndex index n := by
  have hlo := index.le_toInt
  have hhi := index.toInt_lt
  rw [Int64.toInt_maxValue] at hn
  rw [normalizeIndex_eq]
  apply Int64.toInt_ofInt_of_le <;> split_ifs <;> omega

/-- A subscript denotes the position that it is brought to, if that lies inside. -/
lemma position?_eq_some_iff :
    position? index n = some p ↔ normalizeIndex index n = p ∧ p < n := by
  simp only [position?, Option.ite_none_right_eq_some, Option.some.injEq]
  omega

/-- A subscript outside denotes no position. -/
lemma position?_eq_none_iff :
    position? index n = none ↔ ¬(-(n : Int) ≤ index.toInt ∧ index.toInt < n) := by
  simp only [position?, normalizeIndex_eq, ite_eq_right_iff, reduceCtorEq, imp_false]
  split_ifs <;> omega

lemma exists_position?_of_inside (h : -(n : Int) ≤ index.toInt ∧ index.toInt < n) :
    ∃ p, position? index n = some p ∧ normalizeIndex index n = p ∧ p < n := by
  cases hp : position? index n with
  | none => exact absurd h (position?_eq_none_iff.1 hp)
  | some p => exact ⟨p, rfl, position?_eq_some_iff.1 hp⟩

/-! ### Bounds of slices -/

/-- Where a bound of a slice lies in a sequence of `n` elements: a negative bound counts from the
end, and one that lies outside is moved to the nearest end. -/
def boundPosition (n : Nat) (index : Int64) : Int :=
  if index.toInt < 0 then max (index.toInt + n) 0 else min index.toInt n

/-- A bound lies where it is moved to. -/
lemma clampBound_eq (n : Nat) (index : Int64) :
    (clampBound n index : Int) = boundPosition n index := by
  rw [clampBound, normalizeIndex_eq, boundPosition]
  split_ifs <;> omega

lemma clampBound_le (n : Nat) (index : Int64) : clampBound n index ≤ n :=
  Nat.min_le_right _ _

section

variable (lo hi : Option Int64) (n : Nat)

lemma sliceBounds_fst : ((sliceBounds lo hi n).1 : Int) = lo.elim 0 (boundPosition n) := by
  cases lo with
  | none => rfl
  | some i => exact clampBound_eq n i

lemma sliceBounds_snd : ((sliceBounds lo hi n).2 : Int) =
    max (hi.elim (n : Int) (boundPosition n)) (lo.elim 0 (boundPosition n)) := by
  rw [← sliceBounds_fst lo hi n]
  cases hi with
  | none =>
    simp only [sliceBounds, Option.elim_none]
    omega
  | some i =>
    simp only [sliceBounds, Option.elim_some, ← clampBound_eq]
    omega

/-- A slice does not end before it starts. -/
lemma sliceBounds_le : (sliceBounds lo hi n).1 ≤ (sliceBounds lo hi n).2 :=
  Nat.le_max_right _ _

/-- A slice does not reach beyond the end. -/
lemma sliceBounds_snd_le : (sliceBounds lo hi n).2 ≤ n := by
  refine Nat.max_le.2 ⟨?_, ?_⟩
  · cases hi with
    | none => exact Nat.le_refl n
    | some i => exact clampBound_le n i
  · cases lo with
    | none => exact Nat.zero_le n
    | some i => exact clampBound_le n i

end

end Dynval
