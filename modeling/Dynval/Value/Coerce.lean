import Dynval.Action
import Dynval.Number.Basic

/-!
# Conversions

Conversions to truth values, integers and floats. They never fail: a text that cannot be read
stands for zero, and the conversion reports it.
-/

namespace Dynval

namespace Value

variable {ε : Type}

/-- The truth of a value: nil, zero and everything empty is false. -/
def truthy (s : Store) : Value → Bool
  | .nil => false
  | .bool b => b
  | .int i => i != 0
  | .float x => !x.isZero
  | .str t => !t.isEmpty
  | .list r => !(s.items r).isEmpty
  | .map r => !(s.entries r).isEmpty
  | .byteArray r => !(s.data r).isEmpty
  | .bytes data => !data.isEmpty

/-- The integer that a value stands for. -/
def toInt : Value → Int64
  | .bool b => boolInt b
  | .int i => i
  | .float x => x.toInt64
  | .str t => (Text.readInt t).getD 0
  | _ => 0

def toIntEvents : Value → List Event
  | .str t => if (Text.readInt t).isNone then [.unreadableInt t] else []
  | _ => []

def asInt (v : Value) : Action ε Int64 := do
  Action.report v.toIntEvents
  return v.toInt

/-- The float that a value stands for. -/
def toFloat : Value → Binary64
  | .bool b => Binary64.ofInt (boolInt b).toInt
  | .int i => Binary64.ofInt i.toInt
  | .float x => x
  | .str t => (Text.readFloat t).getD Binary64.zero
  | _ => Binary64.zero

def toFloatEvents : Value → List Event
  | .str t => if (Text.readFloat t).isNone then [.unreadableFloat t] else []
  | _ => []

def asFloat (v : Value) : Action ε Binary64 := do
  Action.report v.toFloatEvents
  return v.toFloat

end Value

end Dynval
