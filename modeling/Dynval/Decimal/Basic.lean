import Dynval.Binary64.Basic

/-!
# Decimal numbers

A decimal is a natural number of units `10 ^ exponent`. Among the decimals that read back as a
given positive binary64 number, `Decimal.shortest` has the fewest digits, and of those it is the
nearest to the number. Of two equally near ones the format chooses.
-/

namespace Dynval

open Power

/-- The number `digits * 10 ^ exponent`. -/
structure Decimal where
  digits : Nat
  exponent : Int
deriving DecidableEq, Inhabited

namespace Decimal

/-- Drop the final zeros of a digit string, at most `fuel` of them. -/
def dropZeros : Nat → Decimal → Decimal
  | 0, d => d
  | fuel + 1, d =>
    if d.digits % 10 = 0 then dropZeros fuel ⟨d.digits / 10, d.exponent + 1⟩ else d

/-- The same number written without final zeros. -/
def normalize (d : Decimal) : Decimal :=
  if d.digits = 0 then ⟨0, 0⟩ else d.dropZeros (Nat.toDigits 10 d.digits).length

def toBinary64 (d : Decimal) : Binary64 :=
  Binary64.ofDecimal false d.digits d.exponent

/-- The decimal exponent of the first digit. -/
def leading (d : Decimal) : Int :=
  (Nat.toDigits 10 d.digits).length + d.exponent - 1

end Decimal

/-! ### The shortest decimal -/

namespace Binary64

/-- The `k` with `10 ^ (k - 1) ≤ x < 10 ^ k`, for a positive finite `x`. -/
def decimalExponent (x : Binary64) : Int :=
  let whole := x.scaledAbs / unit
  if whole = 0 then 1 - (Nat.toDigits 10 ((unit - 1) / x.scaledAbs)).length
  else (Nat.toDigits 10 whole).length

end Binary64

namespace Decimal

/-- The number as a count of steps of `10 ^ exponent`: the whole steps, and twice the part that is
left over together with the size of a step, both on one scale. -/
def stepsBelow (x : Binary64) (exponent : Int) : Nat × Nat × Nat :=
  let num := if exponent < 0 then x.scaledAbs * 10 ^ (-exponent).toNat else x.scaledAbs
  let den := if exponent < 0 then Binary64.unit else Binary64.unit * 10 ^ exponent.toNat
  (num / den, 2 * (num % den), den)

/-- Which of two equally near neighbours is taken. -/
inductive Tie where
  /-- The one with an even last digit. -/
  | toEven
  /-- The greater one. -/
  | up
deriving DecidableEq, Inhabited

/-- Whether the lower of two equally near neighbours is taken; it has the given digits. -/
def Tie.isBelow (tie : Tie) (digits : Nat) : Bool :=
  match tie with
  | toEven => digits % 2 == 0
  | up => false

/-- Of the two neighbours of a number among the multiples of `10 ^ exponent`, the nearest one that
reads back as the number. -/
def onGrid (tie : Tie) (x : Binary64) (exponent : Int) : Option Decimal :=
  let (steps, twice, den) := stepsBelow x exponent
  let below : Decimal := ⟨steps, exponent⟩
  let above : Decimal := ⟨steps + 1, exponent⟩
  let nearBelow := twice < den ∨ (twice = den ∧ tie.isBelow steps)
  if below.toBinary64 = x ∧ (nearBelow ∨ above.toBinary64 ≠ x) then some below
  else if above.toBinary64 = x then some above
  else none

/-- Try grids of `digits` digits and more, `fuel` of them. -/
def search (tie : Tie) (x : Binary64) (leading : Int) : Nat → Nat → Option Decimal
  | 0, _ => none
  | fuel + 1, digits =>
    (onGrid tie x (leading - digits)).or (search tie x leading fuel (digits + 1))

/-- The decimal expansion of a finite number, in full. -/
def exact (x : Binary64) : Decimal :=
  ⟨x.scaledAbs * 5 ^ (1074 : Nat), -1074⟩

/-- The shortest decimal that reads back as a positive finite number. Seventeen digits always
suffice. -/
def shortest (tie : Tie) (x : Binary64) : Decimal :=
  ((search tie x x.decimalExponent 17 1).getD (exact x)).normalize

end Decimal

end Dynval
