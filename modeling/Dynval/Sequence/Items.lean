import Dynval.Sequence.Basic
import Dynval.Subscript.Write

/-!
# Iteration and byte strings

The items that iterating a value gives, and the bytes that a value can be turned into.
-/

namespace Dynval

variable {ε : Type}

/-- The items of a value: elements, characters, bytes, or the keys of a map. -/
def Value.items? (s : Store) : Value → Option (List Value)
  | .list r => some (s.items r)
  | .str t => some (t.toList.map Value.ofChar)
  | .byteArray r => some ((s.data r).map Value.ofByte)
  | .bytes data => some (data.map Value.ofByte)
  | .map r => some ((s.entries r).keys.map Key.toValue)
  | _ => none

namespace Sequence

/-- The items of a value; a value that has none is reported. -/
def items (v : Value) : Action ε (List Value) := do
  match ← Action.query v.items? with
  | some items => return items
  | none =>
    Action.report [.notIterable v.kind]
    return []

def enumerate (v : Value) : Action ε (List (Nat × Value)) := do
  return (← items v).zipIdx.map fun (item, i) => (i, item)

/-! ### Bytes -/

variable [Allocator]

/-- So many zero bytes; a length that is not positive gives none. -/
def zeroBytes (op : Operation) (length : Int64) : Except Fault (List UInt8) := do
  reserve op .byte (repeatCount length)
  return List.replicate (repeatCount length) 0

/-- The bytes that a value can be turned into: the low bytes of the elements of a list as integers
or of the code points of a text, the bytes of bytes, or so many zeros for an integer. -/
def bytesFrom (op : Operation) (v : Value) : Action Fault (List UInt8) := do
  match v with
  | .list r =>
    let items ← Action.query fun s => s.items r
    items.mapM fun item => return byteOf (← item.asInt)
  | .byteArray r => Action.query fun s => s.data r
  | .bytes data => return data
  | .str t => return t.toList.map fun c => byteOf (Int64.ofNat c.toNat)
  | _ =>
    match v.integer? with
    | some n => Action.check fun _ => zeroBytes op n
    | none => Action.fail (.of op (.notByteSource v.kind))

def zeroByteArray (length : Int64) : Action Fault Value := do
  newByteArray (← Action.check fun _ => zeroBytes .bytearray length)

def byteArrayFrom (v : Value) : Action Fault Value := do
  newByteArray (← bytesFrom .bytearray v)

def byteStringFrom (v : Value) : Action Fault Value := do
  return .bytes (← bytesFrom .bytes v)

end Sequence

end Dynval
