/-!
# Machine words

Sizes are counted in words of 64 bits. A product of two sizes is checked, or it is taken in 128
bits, where it always fits.

Opening `Power` settles which power `^` means: the one numbers are computed with, also where
monoids bring one of their own.
-/

namespace Dynval

namespace Power

/-- Powers of natural numbers as they are computed. -/
scoped instance (priority := 2000) natPower : Pow Nat Nat := instPowNat

end Power

open Power

def maxSize : Nat := 2 ^ (64 : Nat) - 1

/-- A number as a size, if it fits a machine word. -/
def toSize? (n : Nat) : Option Nat :=
  if n ≤ maxSize then some n else none

/-- A product of two sizes, if it fits a machine word. -/
def checkedMul (m n : Nat) : Option Nat :=
  toSize? (m * n)

/-- The product of two numbers in 128 bits. -/
def wideMul (m n : Nat) : Nat :=
  (BitVec.ofNat 128 m * BitVec.ofNat 128 n).toNat

theorem toSize?_toNat (n : UInt64) : toSize? n.toNat = some n.toNat :=
  if_pos (Nat.le_sub_one_of_lt n.toNat_lt)

theorem wideMul_eq {m n : Nat} (h : m * n < 2 ^ (128 : Nat)) : wideMul m n = m * n := by
  rw [wideMul, BitVec.toNat_mul, BitVec.toNat_ofNat, BitVec.toNat_ofNat, ← Nat.mul_mod]
  exact Nat.mod_eq_of_lt h

/-- The product of two sizes does not wrap in 128 bits. -/
theorem wideMul_of_le {m n : Nat} (hm : m ≤ maxSize) (hn : n ≤ maxSize) : wideMul m n = m * n :=
  wideMul_eq <|
    calc m * n ≤ maxSize * maxSize := Nat.mul_le_mul hm hn
      _ < 2 ^ (128 : Nat) := by decide

end Dynval
