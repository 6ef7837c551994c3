/-!
# Operations

The operations that can be called by name, the number of arguments each takes, and the two
policies for subscripts outside a container.
-/

namespace Dynval

/-- What a subscript outside a container does: the lenient policy reads a default and drops
writes, the strict one raises an error. -/
inductive Policy where
  | lenient
  | strict
deriving DecidableEq, Inhabited

def Policy.name : Policy → String
  | .lenient => "lenient"
  | .strict => "strict"

def Policy.ofName? (name : String) : Option Policy :=
  [Policy.lenient, .strict].find? fun p => p.name == name

/-- The operations that can be called by name. -/
inductive Operation where
  | truthy
  | toInt
  | toFloat
  | toStr
  | getIndex
  | getItem
  | setIndex
  | slice
  | floordiv
  | mod
  | add
  | sub
  | mul
  | truediv
  | neg
  | compare
  | bytearray
  | bytes
  | listRepeat
  | range
  | enumerate
  | isdigit
  | isalpha
  | isspace
  | isalnum
  | ord
  | chr
  | len
  | contains
  | stringify
  | repr
  | min
  | max
  | print
  | abs
  | sqrt
  | sin
  | cos
  | exp
  | floor
deriving DecidableEq, Inhabited

/-- How many arguments an operation takes; no upper bound means any number. -/
structure Arity where
  least : Nat
  most : Option Nat
deriving DecidableEq, Inhabited

namespace Arity

def exactly (n : Nat) : Arity := ⟨n, some n⟩

def accepts (a : Arity) (n : Nat) : Bool :=
  decide (a.least ≤ n) && a.most.all fun most => decide (n ≤ most)

/-- The accepted numbers in words. -/
def text (a : Arity) : String :=
  match a.most with
  | none => "at least " ++ toString a.least
  | some most =>
    if a.least = most then toString most else toString a.least ++ " to " ++ toString most

end Arity

namespace Operation

/-- The name by which an operation is called. -/
def name : Operation → String
  | truthy => "truthy"
  | toInt => "to_int"
  | toFloat => "to_float"
  | toStr => "to_str"
  | getIndex => "get_index"
  | getItem => "get_item"
  | setIndex => "set_index"
  | slice => "slice"
  | floordiv => "floordiv"
  | mod => "mod"
  | add => "add"
  | sub => "sub"
  | mul => "mul"
  | truediv => "truediv"
  | neg => "neg"
  | compare => "compare"
  | bytearray => "bytearray"
  | bytes => "bytes"
  | listRepeat => "list_repeat"
  | range => "range"
  | enumerate => "enumerate"
  | isdigit => "isdigit"
  | isalpha => "isalpha"
  | isspace => "isspace"
  | isalnum => "isalnum"
  | ord => "ord"
  | chr => "chr"
  | len => "len"
  | contains => "contains"
  | stringify => "stringify"
  | repr => "repr"
  | min => "min"
  | max => "max"
  | print => "print"
  | abs => "abs"
  | sqrt => "sqrt"
  | sin => "sin"
  | cos => "cos"
  | exp => "exp"
  | floor => "floor"

def all : List Operation :=
  [truthy, toInt, toFloat, toStr, getIndex, getItem, setIndex, slice, floordiv, mod, add, sub, mul,
    truediv, neg, compare, bytearray, bytes, listRepeat, range, enumerate, isdigit, isalpha,
    isspace, isalnum, ord, chr, len, contains, stringify, repr, min, max, print, abs, sqrt, sin,
    cos, exp, floor]

def ofName? (name : String) : Option Operation :=
  all.find? fun op => op.name == name

def arity : Operation → Arity
  | getIndex | getItem | floordiv | mod | add | sub | mul | truediv | compare | listRepeat
  | contains => .exactly 2
  | setIndex => .exactly 3
  | slice | range => ⟨1, some 3⟩
  | min | max => ⟨1, none⟩
  | print => ⟨0, none⟩
  | _ => .exactly 1

end Operation

end Dynval
