import Dynval.Binary64.Arith
import Dynval.Text.Numeral
import Dynval.Value.Basic

/-!
# Map keys and entries

The values that can index a map. Booleans and integral floats become integers, so that `True`, `1`
and `1.0` address one entry. Keys are ordered by kind, then by value; floats by their bits, texts
and byte strings lexicographically. The contents of a map are pairs of a key and a value, in
increasing order of the keys.
-/

namespace Dynval

inductive Key where
  | nil
  | int (i : Int64)
  | float (x : Binary64)
  | str (s : String)
  | bytes (data : List UInt8)
deriving DecidableEq, Inhabited

namespace Key

/-- The 64-bit integer equal to a float, if there is one. -/
def integral? (x : Binary64) : Option Int64 :=
  if x.isIntegral then Text.toInt64? x.truncInt else none

/-- The key that a value stands for; a container stands for none. -/
def ofValue? : Value → Option Key
  | .nil => some .nil
  | .bool b => some (.int (if b then 1 else 0))
  | .int i => some (.int i)
  | .float x => some ((integral? x).elim (.float x) .int)
  | .str s => some (.str s)
  | .bytes data => some (.bytes data)
  | .list _ | .map _ | .byteArray _ => none

def toValue : Key → Value
  | .nil => .nil
  | .int i => .int i
  | .float x => .float x
  | .str s => .str s
  | .bytes data => .bytes data

/-- The place of the key's kind among the kinds of keys. -/
def rank : Key → Nat
  | .nil => 0
  | .int _ => 1
  | .float _ => 2
  | .str _ => 3
  | .bytes _ => 4

def compare : Key → Key → Ordering
  | .int i, .int j => Ord.compare i.toInt j.toInt
  | .float x, .float y => x.totalCompare y
  | .str s, .str t => Text.compare s t
  | .bytes a, .bytes b => compareBytes a b
  | k, l => Ord.compare k.rank l.rank

end Key

/-! ### Entries -/

/-- Keys with what is stored under them. -/
abbrev Entries (α : Type) := List (Key × α)

namespace Entries

variable {α : Type}

def find? (k : Key) : Entries α → Option α
  | [] => none
  | (l, a) :: rest => if k = l then some a else find? k rest

/-- Store a value under a key, in place of what was there. -/
def insert (k : Key) (a : α) : Entries α → Entries α
  | [] => [(k, a)]
  | (l, b) :: rest =>
    match k.compare l with
    | .lt => (k, a) :: (l, b) :: rest
    | .eq => (k, a) :: rest
    | .gt => (l, b) :: insert k a rest

def erase (k : Key) : Entries α → Entries α
  | [] => []
  | (l, b) :: rest => if k = l then rest else (l, b) :: erase k rest

def keys (es : Entries α) : List Key :=
  es.map Prod.fst

end Entries

end Dynval
