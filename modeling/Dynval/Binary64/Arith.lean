import Dynval.Binary64.Basic

/-!
# Arithmetic on binary64 numbers

Each operation settles NaNs and infinities first, then takes the exact result in units of the
least positive number and rounds it once. Remainder and floor are exact, and so is the square root
before it is rounded. Sine, cosine and the exponential are those of the machine.
-/

namespace Dynval

open Power

namespace Binary64

/-- The largest integer not above the number. For an infinity it lies beyond every finite number;
for a NaN it means nothing. -/
def floorInt (x : Binary64) : Int :=
  x.scaled.fdiv unit

/-- The integer next to the number on the side of zero. -/
def truncInt (x : Binary64) : Int :=
  x.scaled.tdiv unit

/-- The number without its fraction: the bits below the point are cleared. It keeps its sign. -/
def trunc (x : Binary64) : Binary64 :=
  let below := 1075 - x.magnitude / 2 ^ (52 : Nat)
  ofMagnitude x.isNegative (if 52 < below then 0 else x.magnitude - x.magnitude % 2 ^ below)

def isIntegral (x : Binary64) : Bool :=
  x.isFinite && x.scaled % unit == 0

/-- Sum. Two opposite numbers give `0.0`, two negative zeros `-0.0`. -/
def add (x y : Binary64) : Binary64 :=
  if x.isNaN || y.isNaN then nan
  else if x.isInfinite then
    if y.isInfinite && x.isNegative != y.isNegative then nan else x
  else if y.isInfinite then y
  else
    let sum := x.scaled + y.scaled
    if sum = 0 then signedZero (x.isNegative && y.isNegative)
    else ofUnits (decide (sum < 0)) sum.natAbs 1

def sub (x y : Binary64) : Binary64 :=
  x.add y.neg

def mul (x y : Binary64) : Binary64 :=
  let negative := x.isNegative != y.isNegative
  if x.isNaN || y.isNaN then nan
  else if x.isInfinite || y.isInfinite then
    if x.isZero || y.isZero then nan else infinity negative
  else ofUnits negative (x.scaledAbs * y.scaledAbs) unit

def div (x y : Binary64) : Binary64 :=
  let negative := x.isNegative != y.isNegative
  if x.isNaN || y.isNaN then nan
  else if x.isInfinite then
    if y.isInfinite then nan else infinity negative
  else if y.isInfinite then signedZero negative
  else if y.isZero then
    if x.isZero then nan else infinity negative
  else ofUnits negative (x.scaledAbs * unit) y.scaledAbs

/-- Remainder of the division that truncates; it has the sign of the dividend. -/
def rem (x y : Binary64) : Binary64 :=
  if x.isNaN || y.isNaN || x.isInfinite || y.isZero then nan
  else if y.isInfinite then x
  else ofUnits x.isNegative (x.scaledAbs % y.scaledAbs) 1

/-- The floor as a binary64 number; it keeps the sign of a zero. -/
def floor (x : Binary64) : Binary64 :=
  if !x.isFinite then x
  else if x.isZero then x
  else ofInt x.floorInt

/-- Quotient and remainder of the division that floors, for a divisor other than zero. The
remainder has the sign of the divisor, also when it is zero. The quotient is rounded to a whole
number after the remainder is taken off, so that the rounding of the division cannot show. -/
def floorDivMod (x y : Binary64) : Binary64 × Binary64 :=
  let rest := x.rem y
  let ratio := (x.sub rest).div y
  let (ratio, rest) :=
    if rest.isZero then (ratio, signedZero y.isNegative)
    else if y.isLess zero != rest.isLess zero then (ratio.sub one, rest.add y)
    else (ratio, rest)
  let quotient :=
    if ratio.isZero then signedZero (x.div y).isNegative
    else
      let whole := ratio.floor
      if half.isLess (ratio.sub whole) then whole.add one else whole
  (quotient, rest)

def floorDiv (x y : Binary64) : Binary64 := (x.floorDivMod y).1

def floorMod (x y : Binary64) : Binary64 := (x.floorDivMod y).2

end Binary64

/-! ### Elementary functions -/

/-- The integer part of the square root. -/
def floorSqrt (n : Nat) : Nat :=
  if n < 2 then n
  else
    let root := 2 * floorSqrt (n / 4)
    if (root + 1) * (root + 1) ≤ n then root + 1 else root
termination_by n
decreasing_by omega

namespace Binary64

/-- Square root. The integer root of a finite number in units has more than 500 bits, so one more
bit that says whether it is exact decides the rounding. -/
def sqrt (x : Binary64) : Binary64 :=
  if x.isNaN then nan
  else if x.isZero then x
  else if x.isNegative then nan
  else if x.isInfinite then x
  else
    let square := x.scaledAbs * unit
    let root := floorSqrt square
    ofUnits false (2 * root + if root * root = square then 0 else 1) 2

def onMachine (f : Float → Float) (x : Binary64) : Binary64 :=
  ⟨(f (Float.ofBits x.bits)).toBits⟩

def sin : Binary64 → Binary64 := onMachine Float.sin

def cos : Binary64 → Binary64 := onMachine Float.cos

def exp : Binary64 → Binary64 := onMachine Float.exp

end Binary64

end Dynval
