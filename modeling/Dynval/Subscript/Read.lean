import Dynval.Fault
import Dynval.Value.Coerce

/-!
# Reading by subscript

Elements of sequences and maps. A subscript counts from the start of a sequence, a negative one from
its end; positions are computed in unbounded integers. The lenient reads answer a default of the
container where the strict reads raise a fault.
-/

namespace Dynval

/-- The position that a subscript denotes in a sequence of `length` elements; it may lie
outside. -/
def normalizeIndex (index : Int64) (length : Nat) : Int :=
  if index < 0 then index.toInt + length else index.toInt

/-- The position that a subscript denotes, if it lies inside. -/
def position? (index : Int64) (length : Nat) : Option Nat :=
  let position := normalizeIndex index length
  if 0 ≤ position ∧ position < length then some position.toNat else none

/-- The position that a bound of a slice denotes, moved to the nearest end if it lies outside. -/
def clampBound (length : Nat) (index : Int64) : Nat :=
  min (normalizeIndex index length).toNat length

/-- The positions from which and up to which a slice reaches. A missing bound is the end on its
side; a slice that would end before it starts is empty. -/
def sliceBounds (lo hi : Option Int64) (length : Nat) : Nat × Nat :=
  let start := lo.elim 0 (clampBound length)
  let stop := hi.elim length (clampBound length)
  (start, max stop start)

/-! ### Elements -/

namespace Value

def ofByte (b : UInt8) : Value :=
  .ofNat b.toNat

def sequenceLength? (s : Store) : Value → Option Nat
  | .list r => some (s.items r).length
  | .str t => some (Text.length t)
  | .byteArray r => some (s.data r).length
  | .bytes data => some data.length
  | _ => none

/-- The element that a subscript denotes, if there is one. -/
def element? (s : Store) (index : Int64) : Value → Option Value
  | .list r => do (s.items r)[← position? index (s.items r).length]?
  | .str t => do return .ofChar (← Text.get? t (← position? index (Text.length t)))
  | .byteArray r => do return .ofByte (← (s.data r)[← position? index (s.data r).length]?)
  | .bytes data => do return .ofByte (← data[← position? index data.length]?)
  | .map r => (s.entries r).find? (.int index)
  | _ => none

/-- What a read outside a container answers. -/
def neutralDefault (container : Value) : Value :=
  match container.kind with
  | .list | .bytes | .byteArray => .int 0
  | .str => .str ""
  | _ => .nil

end Value

namespace Subscript

variable {ε : Type}

/-- The element at a subscript, or the default of the container. -/
def get (container : Value) (index : Int64) : Action ε Value := do
  match ← Action.query fun s => container.element? s index with
  | some v => return v
  | none =>
    Action.report [.readDefaulted container.kind index]
    return container.neutralDefault

/-- What is stored under any value: in a map under its key, in a sequence at the integer that it
stands for. -/
def getItem (container key : Value) : Action ε Value := do
  match container with
  | .map r =>
    let found ← Action.query fun s => (Key.ofValue? key).bind fun k => (s.entries r).find? k
    return found.getD .nil
  | _ => get container (← key.asInt)

/-- The element at a subscript. A map is asked for the key alone; a sequence has a length that is
told where the subscript lies outside. -/
def getStrict (container : Value) (index : Int64) : Action Fault Value :=
  Action.check fun s =>
    match container with
    | .map r =>
      match (s.entries r).find? (.int index) with
      | some v => .ok v
      | none => .error (.of .getIndex (.noSuchKey (.ofInt index)))
    | _ =>
      match container.sequenceLength? s with
      | none => .error (.of .getIndex (.notSubscriptable container.kind))
      | some n =>
        match container.element? s index with
        | some v => .ok v
        | none => .error (.of .getIndex (.indexOutOfRange index container.kind n))

/-- What is stored under a key: in a map under any key, in a sequence at an integer. -/
def getItemStrict [FloatPrinter] (container key : Value) : Action Fault Value := do
  match container with
  | .map r =>
    let k ← Action.check fun _ => Key.ofValue key
    Action.check fun s =>
      match (s.entries r).find? k with
      | some v => .ok v
      | none => .error (.of .getItem (.noSuchKey (.ofValue s key)))
  | _ =>
    match key.integer? with
    | some index => getStrict container index
    | none => Action.fail (.of .getItem (.notAnIndex container.kind key.kind))

def getWith (policy : Policy) (container : Value) (index : Int64) : Action Fault Value :=
  match policy with
  | .lenient => get container index
  | .strict => getStrict container index

def getItemWith [FloatPrinter] (policy : Policy) (container key : Value) : Action Fault Value :=
  match policy with
  | .lenient => getItem container key
  | .strict => getItemStrict container key

/-- The elements between two bounds, as a new value of the same kind. -/
def slice (container : Value) (lo hi : Option Int64) : Action ε Value := do
  match ← Action.query container.sequenceLength? with
  | none =>
    Action.report [.notSliceable container.kind]
    return .nil
  | some n =>
    let (start, stop) := sliceBounds lo hi n
    match container with
    | .list r => newList (← Action.query fun s => (s.items r).extract start stop)
    | .byteArray r => newByteArray (← Action.query fun s => (s.data r).extract start stop)
    | .str t => return .str (Text.slice t start stop)
    | .bytes data => return .bytes (data.extract start stop)
    | _ => return .nil

end Subscript

end Dynval
