import Dynval.Subscript.Write
import Dynval.Text.Basic
import Dynval.Value.Equality

/-!
# Containers

How many elements a container has and which, and what can be done to a list, a map or a byte array
by its reference. Positions count from the front; a position outside does nothing or gives nothing.
-/

namespace Dynval

/-! ### Length and membership -/

namespace Value

/-- The number of elements of a sequence or entries of a map. -/
def length (s : Store) (v : Value) : Except Fault Nat :=
  match v, v.sequenceLength? s with
  | .map r, _ => .ok (s.entries r).length
  | _, some n => .ok n
  | _, none => .error (.of .len (.noLength v.kind))

/-- Whether bytes stand somewhere in others: no bytes stand everywhere, and others are looked for
among the parts of their length. -/
def holdsBytes (data needle : List UInt8) : Bool :=
  if h : needle = [] then true
  else (windows needle.length (List.length_pos_iff.2 h) data).contains needle

/-- Whether bytes hold a byte or a byte string. -/
def bytesContain [FloatPrinter] (s : Store) (data : List UInt8) (item : Value) :
    Except Fault Bool :=
  match item.integer?, item.byteData? s with
  | some i, _ =>
    match byteOf? i with
    | some b => .ok (data.contains b)
    | none => .error (.of .contains (.byteOutOfRange (.ofValue s item)))
  | none, some needle => .ok (holdsBytes data needle)
  | none, none => .error (.of .contains (.bytesNeedle item.kind))

/-- Whether a container holds an item: an element of a list, a key of a map, a part of a text or
of bytes. -/
def contains [FloatPrinter] (s : Store) (container item : Value) : Except Fault Bool :=
  match container with
  | .str t =>
    match item with
    | .str needle => .ok (Text.contains t needle)
    | _ => .error (.of .contains (.textNeedle item.kind))
  | .list r => .ok ((s.items r).any fun element => element.isOrEquals s item)
  | .map r => do
    let k ← Key.ofValue item
    return ((s.entries r).find? k).isSome
  | .bytes data => bytesContain s data item
  | .byteArray r => bytesContain s (s.data r) item
  | _ => .error (.of .contains (.notIterable container.kind))

end Value

namespace Store

/-! ### Lists -/

def pushItem (s : Store) (r : Ref) (v : Value) : Store :=
  s.setItems r (s.items r ++ [v])

/-- Put an item before a position, or behind the list if it is shorter. -/
def insertItem (s : Store) (r : Ref) (i : Nat) (v : Value) : Store :=
  s.setItems r ((s.items r).insertIdx (min i (s.items r).length) v)

def extendItems (s : Store) (r : Ref) (more : List Value) : Store :=
  s.setItems r (s.items r ++ more)

def popItem (s : Store) (r : Ref) : Option Value × Store :=
  ((s.items r).getLast?, s.setItems r (s.items r).dropLast)

/-- Replace an item, and say whether there was one. -/
def replaceItem (s : Store) (r : Ref) (i : Nat) (v : Value) : Bool × Store :=
  (decide (i < (s.items r).length), s.setItem r i v)

/-! ### Maps -/

/-- Set an entry, and answer its old value. -/
def putEntry (s : Store) (r : Ref) (k : Key) (v : Value) : Option Value × Store :=
  ((s.entries r).find? k, s.setEntry r k v)

/-- Remove an entry, and answer its value. -/
def removeEntry (s : Store) (r : Ref) (k : Key) : Option Value × Store :=
  ((s.entries r).find? k, s.setEntries r ((s.entries r).erase k))

/-! ### Byte arrays -/

/-- Add the low byte of an integer behind a byte array. -/
def pushByte (s : Store) (r : Ref) (i : Int64) : Store :=
  s.setData r (s.data r ++ [byteOf i])

def popByte (s : Store) (r : Ref) : Option UInt8 × Store :=
  ((s.data r).getLast?, s.setData r (s.data r).dropLast)

/-- Replace a byte by the low byte of an integer, and say whether there was one. -/
def replaceByte (s : Store) (r : Ref) (i : Nat) (value : Int64) : Bool × Store :=
  (decide (i < (s.data r).length), s.setByte r i (byteOf value))

end Store

end Dynval
