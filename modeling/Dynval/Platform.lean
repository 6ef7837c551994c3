import Dynval.Sequence.Basic

/-!
# The standard platform

Numbers are printed with the fewest digits that read back, of two equally near choices the even one;
and memory is addressed by 47 bits.
-/

namespace Dynval

open Power

namespace Decimal

/-- A literal of a decimal without final zeros: with a point when the decimal exponent of its first
digit is from -5 to 15, with an exponent else. -/
def literal (d : Decimal) : List Char :=
  let digits := Nat.toDigits 10 d.digits
  if -5 ≤ d.leading ∧ d.leading < 16 then positional digits d.leading
  else scientific digits (intChars d.leading)

theorem isLiteralChar_of_mem_toDigits {n : Nat} {c : Char} (h : c ∈ Nat.toDigits 10 n) :
    isLiteralChar c := by
  simp [isLiteralChar, Nat.isDigit_of_mem_toDigits (by decide) (by decide) h]

theorem isLiteralChar_literal (d : Decimal) : ∀ c ∈ d.literal, isLiteralChar c := by
  intro c hc
  unfold literal at hc
  dsimp only at hc
  split at hc
  · rcases mem_positional hc with h | rfl | rfl
    · exact isLiteralChar_of_mem_toDigits h
    · decide
    · decide
  · rcases mem_scientific hc with h | rfl | rfl | h
    · exact isLiteralChar_of_mem_toDigits h
    · decide
    · decide
    · unfold intChars at h
      split at h
      · rcases List.mem_cons.1 h with rfl | h
        · decide
        · exact isLiteralChar_of_mem_toDigits h
      · exact isLiteralChar_of_mem_toDigits h

end Decimal

/-- The bytes of an element. -/
def Slot.size : Slot → Nat
  | .byte => 1
  | .integer => 8
  | .value => 24

namespace Platform

/-- A printer that finds the fewest digits, and an allocator that has room for what can be
addressed. -/
@[reducible] def standard : Platform where
  literal x := (Decimal.shortest .toEven x).literal
  isLiteralChar_literal x := Decimal.isLiteralChar_literal _
  reserves slot elements := elements * slot.size < 2 ^ (47 : Nat)
  reserves_zero slot := by simp

end Platform

end Dynval
