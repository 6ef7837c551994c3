import Dynval.Action
import Dynval.Fault
import Dynval.Store.Copy

/-!
# Repetition and ranges

Sequences repeated a number of times. Containers among repeated elements are copied each time, so
that no two elements share one. A range gives the integers from a start towards a stop, by a step,
one at a time and in 64 bits that wrap, and knows how many are left. How many there are is computed
in exact integers and then kept in 64 bits.

Before a sequence is built, room for it is asked of an `Allocator`.
-/

namespace Dynval

/-- What the elements of a sequence are, as far as the room for them goes. -/
inductive Slot where
  | byte
  | integer
  | value
deriving DecidableEq, Inhabited

/-- What makes room for the elements of sequences. Whether it can depends on what they are and how
many there are; no elements need no room. -/
class Allocator where
  reserves : Slot → Nat → Bool
  reserves_zero : ∀ slot, reserves slot 0

/-- What the program takes from the machine that it runs on. -/
class Platform extends FloatPrinter, Allocator

namespace Sequence

/-- Make sure that there is room for a number of elements. -/
def reserve [Allocator] (op : Operation) (slot : Slot) (elements : Nat) : Except Fault Unit :=
  if Allocator.reserves slot elements then .ok ()
  else .error (.of op (.cannotAllocate elements))

/-- A number of repetitions; one that is not positive counts as none. -/
def repeatCount (i : Int64) : Nat :=
  i.toInt.toNat

def repeatList {α : Type} (count : Nat) (xs : List α) : List α :=
  (List.replicate count xs).flatten

theorem map_repeatList {α β : Type} (f : α → β) (count : Nat) (xs : List α) :
    (repeatList count xs).map f = repeatList count (xs.map f) := by
  rw [repeatList, repeatList, List.map_flatten, List.map_replicate]

/-- How many elements the repetitions of `unit` elements have, if that fits a machine word. -/
def repeatedLength (op : Operation) (unit count : Nat) : Except Fault Nat :=
  match checkedMul unit count with
  | some n => .ok n
  | none => .error (.of op (.cannotAllocate (wideMul unit count)))

/-- Make sure that there is room for the repetitions of `unit` elements; nothing repeated takes no
room. -/
def reserveRepeated [Allocator] (op : Operation) (slot : Slot) (unit count : Nat) :
    Except Fault Unit :=
  if unit = 0 then .ok ()
  else do reserve op slot (← repeatedLength op unit count)

/-- A copy of a value that shares no container with it. -/
def independentCopy {ε : Type} (v : Value) : Action ε Value :=
  if v.kind.isComposite then Action.update fun s => s.deepCopy v else pure v

/-- Elements repeated a number of times, containers copied each time. -/
def repeatItems [Allocator] (op : Operation) (items : List Value) (count : Nat) :
    Action Fault (List Value) := do
  Action.check fun _ => reserveRepeated op .value items.length count
  if items.isEmpty then return [] else (repeatList count items).mapM independentCopy

def listRepeat [Allocator] (v : Value) (count : Int64) : Action Fault Value := do
  let n := repeatCount count
  Action.report [.repeating v.kind n]
  newList (← repeatItems .listRepeat [v] n)

end Sequence

/-! ### Ranges -/

/-- A range that is being walked. -/
structure StepRange where
  /-- The integer that comes next. -/
  next : Int64
  step : Int64
  /-- How many integers are left. -/
  remaining : UInt64
deriving DecidableEq, Inhabited

namespace StepRange

/-- The number of integers from `start` towards `stop`, without it, by a step other than zero. -/
def count (start stop step : Int) : Nat :=
  let span := if 0 < step then stop - start else start - stop
  ((span + step.natAbs - 1) / step.natAbs).toNat

/-- The range from `start` towards `stop`, without it. -/
def ofBounds (start stop step : Int64) : Except Fault StepRange :=
  if step = 0 then .error (.of .range (.zeroStep (.ofInt step)))
  else .ok ⟨start, step, .ofNat (count start.toInt stop.toInt step.toInt)⟩

def next? (r : StepRange) : Option (Int64 × StepRange) :=
  if r.remaining = 0 then none
  else some (r.next, ⟨r.next + r.step, r.step, r.remaining - 1⟩)

/-- The least number of integers that are left, and the greatest if it is a size. -/
def sizeHint (r : StepRange) : Nat × Option Nat :=
  ((toSize? r.remaining.toNat).getD maxSize, toSize? r.remaining.toNat)

theorem remaining_of_next? {r r' : StepRange} {i : Int64} (h : r.next? = some (i, r')) :
    r.remaining.toNat = r'.remaining.toNat + 1 := by
  unfold next? at h
  split at h
  · cases h
  · rename_i hne
    cases h
    have hpos : 1 ≤ r.remaining.toNat :=
      Nat.one_le_iff_ne_zero.2 fun h0 => hne (UInt64.toNat_inj.1 h0)
    have hle : (1 : UInt64) ≤ r.remaining := UInt64.le_iff_toNat_le.2 hpos
    rw [UInt64.toNat_sub_of_le _ _ hle]
    exact (Nat.sub_add_cancel hpos).symm

/-- All integers that are left, taken one after another. -/
def toList (r : StepRange) : List Int64 :=
  match _ : r.next? with
  | none => []
  | some (i, rest) => i :: toList rest
termination_by r.remaining.toNat
decreasing_by
  rename_i h
  rw [remaining_of_next? h]
  exact Nat.lt_succ_self _

end StepRange

/-- The integers from `start` towards `stop`, without it, by a step. -/
def Sequence.range [Allocator] (start stop step : Int64) : Except Fault (List Int64) := do
  let r ← StepRange.ofBounds start stop step
  match toSize? r.remaining.toNat with
  | none => .error (.of .range (.cannotAllocate r.remaining.toNat))
  | some n =>
    reserve .range .integer n
    return r.toList

end Dynval
