import Dynval.Event
import Dynval.Store.Basic

/-!
# Actions

An action reads and changes a store, reports events, and ends with a result or an error. An error
keeps the store and the events up to it.
-/

namespace Dynval

/-- How an action ended. -/
structure Outcome (ε α : Type) where
  result : Except ε α
  store : Store
  events : List Event

/-- A computation over a store. -/
def Action (ε α : Type) : Type := Store → Outcome ε α

namespace Action

variable {ε δ α β : Type}

protected def pure (a : α) : Action ε α :=
  fun s => ⟨.ok a, s, []⟩

/-- Do one action after another; the second runs only if the first succeeds. -/
protected def bind (x : Action ε α) (f : α → Action ε β) : Action ε β := fun s =>
  match x s with
  | ⟨.ok a, s, events⟩ =>
    let o := f a s
    ⟨o.result, o.store, events ++ o.events⟩
  | ⟨.error e, s, events⟩ => ⟨.error e, s, events⟩

instance : Monad (Action ε) where
  pure := Action.pure
  bind := Action.bind

def fail (e : ε) : Action ε α :=
  fun s => ⟨.error e, s, []⟩

def report (events : List Event) : Action ε Unit :=
  fun s => ⟨.ok (), s, events⟩

/-- Read something off the store. -/
def query (f : Store → α) : Action ε α :=
  fun s => ⟨.ok (f s), s, []⟩

/-- Read something off the store, or fail. -/
def check (f : Store → Except ε α) : Action ε α :=
  fun s => ⟨f s, s, []⟩

def modify (f : Store → Store) : Action ε Unit :=
  fun s => ⟨.ok (), f s, []⟩

/-- Change the store and answer. -/
def update (f : Store → α × Store) : Action ε α := fun s =>
  let (a, s) := f s
  ⟨.ok a, s, []⟩

def alloc (c : Cell) : Action ε Ref :=
  update fun s => s.alloc c

/-- Answer how an action ended instead of failing. -/
def attempt (x : Action ε α) : Action δ (Except ε α) := fun s =>
  let o := x s
  ⟨.ok o.result, o.store, o.events⟩

def mapError (f : ε → δ) (x : Action ε α) : Action δ α := fun s =>
  let o := x s
  ⟨o.result.mapError f, o.store, o.events⟩

@[simp] theorem pure_apply (a : α) (s : Store) : (pure a : Action ε α) s = ⟨.ok a, s, []⟩ := rfl

theorem bind_apply (x : Action ε α) (f : α → Action ε β) (s : Store) :
    (x >>= f) s = match x s with
      | ⟨.ok a, s, events⟩ => ⟨(f a s).result, (f a s).store, events ++ (f a s).events⟩
      | ⟨.error e, s, events⟩ => ⟨.error e, s, events⟩ := rfl

end Action

/-! ### Fresh containers -/

def newList {ε : Type} (items : List Value) : Action ε Value := do
  return .list (← Action.alloc (.list items))

def newMap {ε : Type} (entries : Entries Value) : Action ε Value := do
  return .map (← Action.alloc (.map entries))

def newByteArray {ε : Type} (data : List UInt8) : Action ε Value := do
  return .byteArray (← Action.alloc (.byteArray data))

end Dynval
