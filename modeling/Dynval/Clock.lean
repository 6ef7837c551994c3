import Dynval.Binary64.Basic

/-!
# Clocks

A clock counts the seconds since its origin, given readings in nanoseconds.
-/

namespace Dynval

open Power

/-- A clock, as the reading at which it was started. -/
structure Clock where
  origin : Nat
deriving DecidableEq, Inhabited

/-- The seconds from the origin to a reading; none for a reading before it. -/
def Clock.elapsed (c : Clock) (reading : Nat) : Binary64 :=
  Binary64.ofUnits false ((reading - c.origin) * Binary64.unit) (10 ^ (9 : Nat))

end Dynval
