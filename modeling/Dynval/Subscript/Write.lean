import Dynval.Subscript.Read

/-!
# Writing by subscript

Replacing elements of lists, byte arrays and maps. The lenient writes drop what the strict writes
refuse with a fault.
-/

namespace Dynval

/-- The byte that an integer leaves: its low eight bits. -/
def byteOf (i : Int64) : UInt8 :=
  (i &&& 255).toUInt64.toUInt8

/-- The byte that an integer is. -/
def byteOf? (i : Int64) : Option UInt8 :=
  if 0 ≤ i.toInt ∧ i.toInt < 256 then some (byteOf i) else none

namespace Store

def setItem (s : Store) (r : Ref) (p : Nat) (v : Value) : Store :=
  s.setItems r ((s.items r).set p v)

def setByte (s : Store) (r : Ref) (p : Nat) (b : UInt8) : Store :=
  s.setData r ((s.data r).set p b)

def setEntry (s : Store) (r : Ref) (k : Key) (v : Value) : Store :=
  s.setEntries r ((s.entries r).insert k v)

end Store

namespace Subscript

variable {ε : Type}

def dropWrite (container : Value) (index : Int64) : Action ε Unit :=
  Action.report [.writeDropped container.kind index]

/-- Replace the element at a subscript. -/
def set (container : Value) (index : Int64) (v : Value) : Action ε Unit := do
  match container with
  | .list r =>
    match ← Action.query fun s => position? index (s.items r).length with
    | some p => Action.modify fun s => s.setItem r p v
    | none => dropWrite container index
  | .byteArray r =>
    match ← Action.query fun s => position? index (s.data r).length with
    | some p =>
      let b ← v.asInt
      Action.modify fun s => s.setByte r p (byteOf b)
    | none => dropWrite container index
  | .map r => Action.modify fun s => s.setEntry r (.int index) v
  | _ => dropWrite container index

/-- Store under any value: in a map under its key, in a sequence at the integer that it stands
for. -/
def setItem (container key v : Value) : Action ε Unit := do
  match container with
  | .map r =>
    match Key.ofValue? key with
    | some k => Action.modify fun s => s.setEntry r k v
    | none => Action.report [.keyDropped key.kind]
  | _ => set container (← key.asInt) v

/-- Replace the element at a subscript. A byte array takes only integers that are bytes. -/
def setStrict [FloatPrinter] (container : Value) (index : Int64) (v : Value) :
    Action Fault Unit := do
  match container with
  | .list r =>
    let p ← Action.check fun s => inside (s.items r).length
    Action.modify fun s => s.setItem r p v
  | .byteArray r =>
    let p ← Action.check fun s => inside (s.data r).length
    match v.integer?.bind byteOf? with
    | some b => Action.modify fun s => s.setByte r p b
    | none => Action.check fun s => .error (.of .setIndex (.byteOutOfRange (.ofValue s v)))
  | .map r => Action.modify fun s => s.setEntry r (.int index) v
  | _ => Action.fail (.of .setIndex (.notAssignable container.kind))
where
  /-- The position that the subscript denotes. -/
  inside (n : Nat) : Except Fault Nat :=
    match position? index n with
    | some p => .ok p
    | none => .error (.of .setIndex (.indexOutOfRange index container.kind n))

/-- Store under a key: in a map under any key, in a sequence at an integer. -/
def setItemStrict [FloatPrinter] (container key v : Value) : Action Fault Unit := do
  match container with
  | .map r =>
    let k ← Action.check fun _ => Key.ofValue key
    Action.modify fun s => s.setEntry r k v
  | _ =>
    match key.integer? with
    | some index => setStrict container index v
    | none => Action.fail ⟨.setItem, .notAnIndex container.kind key.kind⟩

def setWith [FloatPrinter] (policy : Policy) (container : Value) (index : Int64) (v : Value) :
    Action Fault Unit :=
  match policy with
  | .lenient => set container index v
  | .strict => setStrict container index v

end Subscript

end Dynval
