import Dynval.Word

/-!
# Binary64 numbers

A binary64 floating-point number is kept as its 64 bits, so that numbers which compare equal but
are written differently (`0.0` and `-0.0`, the many NaNs) stay apart. Every finite number is a
whole multiple of the least positive number `2 ^ (-1074)`; `scaled` is that multiple. Comparison,
truncation and arithmetic read numbers through `scaled`, in exact integers.

A ratio of natural numbers is rounded once, to the nearest binary64 number, an exact half going to
the even neighbour. Everything that makes a binary64 number out of an exact result goes through
`ofUnits`.
-/

namespace Dynval

open Power

/-- A binary64 floating-point number. -/
structure Binary64 where
  /-- Sign, exponent and fraction, from the highest bit down. -/
  bits : UInt64
deriving DecidableEq, Inhabited

namespace Binary64

/-- The magnitude bits of infinity; the magnitudes above them are the NaNs. -/
def infinityBits : Nat := 0x7ff0000000000000

/-- A whole number in units of the least positive number is this many of them. -/
def unit : Nat := 2 ^ (1074 : Nat)

/-- Whether the sign bit is set. -/
def isNegative (x : Binary64) : Bool :=
  decide (2 ^ (63 : Nat) ≤ x.bits.toNat)

/-- The bits below the sign. -/
def magnitude (x : Binary64) : Nat :=
  x.bits.toNat % 2 ^ (63 : Nat)

/-- The number with the given sign and magnitude bits. -/
def ofMagnitude (negative : Bool) (magnitude : Nat) : Binary64 :=
  ⟨UInt64.ofNat (if negative then 2 ^ (63 : Nat) + magnitude else magnitude)⟩

def isNaN (x : Binary64) : Bool :=
  decide (infinityBits < x.magnitude)

def isInfinite (x : Binary64) : Bool :=
  x.magnitude == infinityBits

def isFinite (x : Binary64) : Bool :=
  decide (x.magnitude < infinityBits)

/-- Whether the number is `0.0` or `-0.0`. -/
def isZero (x : Binary64) : Bool :=
  x.magnitude == 0

def zero : Binary64 := ⟨0⟩

def one : Binary64 := ⟨0x3ff0000000000000⟩

def half : Binary64 := ⟨0x3fe0000000000000⟩

/-- The NaN that operations answer. -/
def nan : Binary64 := ⟨0x7ff8000000000000⟩

def infinity (negative : Bool) : Binary64 :=
  ofMagnitude negative infinityBits

def signedZero (negative : Bool) : Binary64 :=
  ofMagnitude negative 0

def neg (x : Binary64) : Binary64 :=
  ofMagnitude (!x.isNegative) x.magnitude

def abs (x : Binary64) : Binary64 :=
  ofMagnitude false x.magnitude

/-- The power of two by which the significand is scaled, counted from the least. -/
def exponent (x : Binary64) : Nat :=
  x.magnitude / 2 ^ (52 : Nat) - 1

/-- The significand as a whole number: the fraction, below a leading one for normal numbers. -/
def significand (x : Binary64) : Nat :=
  if x.magnitude / 2 ^ (52 : Nat) = 0 then x.magnitude
  else x.magnitude % 2 ^ (52 : Nat) + 2 ^ (52 : Nat)

/-- The absolute value in units of the least positive number. An infinity comes out above every
finite number. -/
def scaledAbs (x : Binary64) : Nat :=
  x.significand * 2 ^ x.exponent

/-- The value in units of the least positive number. -/
def scaled (x : Binary64) : Int :=
  if x.isNegative then -(x.scaledAbs : Int) else x.scaledAbs

/-! ### Order -/

/-- The numeric order of two numbers; nothing when one is a NaN. -/
def compare? (x y : Binary64) : Option Ordering :=
  if x.isNaN || y.isNaN then none else some (compare x.scaled y.scaled)

def isLess (x y : Binary64) : Bool :=
  x.compare? y == some .lt

/-- The place of a bit pattern among all bit patterns. -/
def totalKey (x : Binary64) : Int :=
  if x.isNegative then -(x.magnitude : Int) - 1 else x.magnitude

/-- The order of all bit patterns. -/
def totalCompare (x y : Binary64) : Ordering :=
  compare x.totalKey y.totalKey

end Binary64

/-! ### Rounding -/

/-- The whole number nearest to `num / den`, the even one when two are equally near. -/
def roundDiv (num den : Nat) : Nat :=
  let quotient := num / den
  let twice := 2 * (num % den)
  if den < twice ∨ (twice = den ∧ quotient % 2 = 1) then quotient + 1 else quotient

namespace Binary64

/-- The number nearest to `num / den` units of the least positive number. A result of 53 bits is
kept whole; a longer one is cut after its 53rd bit, and a carry moves into the exponent. -/
def ofUnits (negative : Bool) (num den : Nat) : Binary64 :=
  let shift := (num / den).log2 - 52
  let magnitude := shift * 2 ^ (52 : Nat) + roundDiv num (den * 2 ^ shift)
  ofMagnitude negative (min magnitude infinityBits)

def ofInt (i : Int) : Binary64 :=
  ofUnits (decide (i < 0)) (i.natAbs * unit) 1

/-- The number nearest to `± digits * 10 ^ exponent`. Powers that no binary64 number can hold are
settled before they are computed. -/
def ofDecimal (negative : Bool) (digits : Nat) (exponent : Int) : Binary64 :=
  if digits = 0 ∨ (Nat.toDigits 10 digits).length + exponent < -400 then
    signedZero negative
  else if 400 < exponent then
    infinity negative
  else if 0 ≤ exponent then
    ofUnits negative (digits * 10 ^ exponent.toNat * unit) 1
  else
    ofUnits negative (digits * unit) (10 ^ (-exponent).toNat)

end Binary64

end Dynval
