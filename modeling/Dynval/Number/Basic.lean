import Dynval.Binary64.Arith
import Dynval.Value.Basic

/-!
# Numbers

The numeric reading of a value: booleans count as integers. Integers and floats are compared
exactly, without rounding either.
-/

namespace Dynval

/-- A number of either kind. -/
inductive Number where
  | int (i : Int64)
  | float (x : Binary64)
deriving DecidableEq, Inhabited

/-- The 64-bit integer nearest to an integer. -/
def saturate (i : Int) : Int64 :=
  Int64.ofInt (max Int64.minValue.toInt (min Int64.maxValue.toInt i))

/-- Truncate to a 64-bit integer. A number beyond the range gives the nearest end of it, a NaN
zero. -/
def Binary64.toInt64 (x : Binary64) : Int64 :=
  if x.isNaN then 0 else saturate x.truncInt

/-- The least number above every 64-bit integer. -/
def Binary64.int64Bound : Binary64 := ⟨0x43e0000000000000⟩

/-- The order of an integer to a number; nothing for a NaN. Within the range of the integers the
whole part is compared, and the fraction where it makes the difference. -/
def Binary64.compareInt? (x : Binary64) (i : Int64) : Option Ordering :=
  if x.isNaN then none
  else if !x.isLess int64Bound then some .lt
  else if x.isLess int64Bound.neg then some .gt
  else
    let whole := x.trunc
    some ((compare i.toInt whole.toInt64.toInt).then ((whole.compare? x).getD .eq))

def boolInt (b : Bool) : Int64 :=
  if b then 1 else 0

def Value.number? : Value → Option Number
  | .bool b => some (.int (boolInt b))
  | .int i => some (.int i)
  | .float x => some (.float x)
  | _ => none

def Value.integer? : Value → Option Int64
  | .bool b => some (boolInt b)
  | .int i => some i
  | _ => none

namespace Number

/-- The number as a float; an integer is rounded. -/
def toBinary64 : Number → Binary64
  | .int i => Binary64.ofInt i.toInt
  | .float x => x

def isZero : Number → Bool
  | .int i => i == 0
  | .float x => x.isZero

def toValue : Number → Value
  | .int i => .int i
  | .float x => .float x

/-- The exact order of two numbers; nothing when one is a NaN. -/
def compare? : Number → Number → Option Ordering
  | .int i, .int j => some (compare i.toInt j.toInt)
  | .float x, .float y => x.compare? y
  | .int i, .float y => y.compareInt? i
  | .float x, .int j => (x.compareInt? j).map Ordering.swap

end Number

end Dynval
