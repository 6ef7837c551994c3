import Dynval.Sequence.Items
import Dynval.Toml.Text

/-!
# Literals

How a value is written in TOML. Scalars and arrays stand for themselves. A table with one key that
starts with a dollar sign is *tagged* and stands for a value that TOML has no form for; every other
table is a map with text keys. Each evaluation builds new containers.
-/

namespace Dynval

/-- Why a literal stands for no value. -/
inductive LiteralError where
  | datetime (text : String)
  | unknownTag (tag : String)
  /-- The entries of a map are not in an array. -/
  | notPairs
  /-- An entry of a map is not an array of a key and a value. -/
  | notPair (entry : Toml)
  | fault (f : Fault)
deriving Inhabited

namespace LiteralError

def reason : LiteralError → String
  | datetime text => "datetime " ++ text ++ " has no runtime value"
  | unknownTag tag => "unknown tag '" ++ tag ++ "'"
  | notPairs => "'$map' expects an array of pairs"
  | notPair entry =>
    "'$map' entry " ++ String.ofList entry.aloneText ++ " is not a [key, value] pair"
  | fault f => f.message

/-- The message of an error; a fault speaks for itself. -/
def message : LiteralError → String
  | fault f => f.message
  | e => "Invalid literal: " ++ e.reason

end LiteralError

/-- What the only key of a table says about it. -/
inductive Tag where
  | nil
  | bytes
  | byteArray
  | map
  /-- A key that starts with a dollar sign and means nothing. -/
  | unknown
  /-- A key like any other. -/
  | none
deriving DecidableEq, Inhabited

def Tag.ofKey (key : String) : Tag :=
  if key = "$nil" then .nil
  else if key = "$bytes" then .bytes
  else if key = "$bytearray" then .byteArray
  else if key = "$map" then .map
  else if key.toList.head? = some '$' then .unknown
  else .none

namespace Literal

variable [Allocator]

mutual

/-- The value that a literal stands for. -/
def eval : Toml → Action LiteralError Value
  | .string s => return .str s
  | .integer i => return .int i
  | .float x => return .float x
  | .boolean b => return .bool b
  | .datetime text => Action.fail (.datetime text)
  | .array items => do newList (← evalItems items)
  | .table [(key, payload)] =>
    match Tag.ofKey key with
    | .nil => return .nil
    | .bytes => do
      let v ← eval payload
      (Sequence.byteStringFrom v).mapError .fault
    | .byteArray => do
      let v ← eval payload
      (Sequence.byteArrayFrom v).mapError .fault
    | .map =>
      match payload with
      | .array pairs => do newMap (← evalPairs [] pairs)
      | _ => Action.fail .notPairs
    | .unknown => Action.fail (.unknownTag key)
    | .none => do newMap [(.str key, ← eval payload)]
  | .table entries => do newMap (← evalEntries [] entries)

def evalItems : List Toml → Action LiteralError (List Value)
  | [] => return []
  | item :: rest => do
    let v ← eval item
    return v :: (← evalItems rest)

/-- Add the entries of a table to a map. -/
def evalEntries (map : Entries Value) :
    List (String × Toml) → Action LiteralError (Entries Value)
  | [] => return map
  | (key, item) :: rest => do
    let v ← eval item
    evalEntries (map.insert (.str key) v) rest

/-- Add pairs of a key and a value to a map. -/
def evalPairs (map : Entries Value) : List Toml → Action LiteralError (Entries Value)
  | [] => return map
  | .array [key, item] :: rest => do
    let k ← eval key
    let key ← Action.check fun _ => (Key.ofValue k).mapError .fault
    let v ← eval item
    evalPairs (map.insert key v) rest
  | entry :: _ => Action.fail (.notPair entry)

end

end Literal

end Dynval
