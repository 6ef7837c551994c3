import Dynval.Binary64.Basic

/-!
# Dynamic values

A value is a scalar or a reference to a container. Containers live in a store (`Dynval.Store`), so
that several values can share one container and a container can hold itself.
-/

namespace Dynval

inductive Kind where
  | nil
  | bool
  | int
  | float
  | str
  | list
  | map
  | byteArray
  | bytes
deriving DecidableEq, Inhabited

def Kind.name : Kind → String
  | .nil => "NoneType"
  | .bool => "bool"
  | .int => "int"
  | .float => "float"
  | .str => "str"
  | .list => "list"
  | .map => "dict"
  | .byteArray => "bytearray"
  | .bytes => "bytes"

/-- Whether values of the kind are containers that can be changed. -/
def Kind.isComposite : Kind → Bool
  | .list | .map | .byteArray => true
  | _ => false

/-- The address of a container in a store. -/
structure Ref where
  index : Nat
deriving DecidableEq, Inhabited

inductive Value where
  | nil
  | bool (b : Bool)
  | int (i : Int64)
  | float (x : Binary64)
  | str (s : String)
  | list (r : Ref)
  | map (r : Ref)
  | byteArray (r : Ref)
  | bytes (data : List UInt8)
deriving DecidableEq, Inhabited

namespace Value

def kind : Value → Kind
  | .nil => .nil
  | .bool _ => .bool
  | .int _ => .int
  | .float _ => .float
  | .str _ => .str
  | .list _ => .list
  | .map _ => .map
  | .byteArray _ => .byteArray
  | .bytes _ => .bytes

def ofNat (n : Nat) : Value :=
  .int (Int64.ofNat n)

def ofChar (c : Char) : Value :=
  .str (String.ofList [c])

end Value

end Dynval
