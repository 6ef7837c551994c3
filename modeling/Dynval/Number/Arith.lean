import Dynval.Number.Basic
import Dynval.Sequence.Basic
import Dynval.Value.Coerce

/-!
# Arithmetic

Integers wrap at 64 bits, a float operand makes the operation one on floats, and division rounds
down. Addition also joins sequences, multiplication also repeats them. A result outside the domain
of a function on floats and one too large for a float are faults.
-/

namespace Dynval

namespace Number

/-- Apply one of two functions: to two integers, or else to two floats. -/
def lift (onInt : Int64 → Int64 → Int64) (onFloat : Binary64 → Binary64 → Binary64) :
    Number → Number → Number
  | .int i, .int j => .int (onInt i j)
  | a, b => .float (onFloat a.toBinary64 b.toBinary64)

end Number

/-- The quotient rounded down, wrapped to 64 bits: one less than the truncated quotient when there
is a remainder and the signs of the operands differ. -/
def floorDivInt (i j : Int64) : Int64 :=
  if i % j ≠ 0 ∧ decide (i < 0) ≠ decide (j < 0) then i / j - 1 else i / j

/-- The remainder that goes with the quotient rounded down: the truncated remainder, brought to the
sign of the divisor. -/
def floorModInt (i j : Int64) : Int64 :=
  if i % j ≠ 0 ∧ decide (i % j < 0) ≠ decide (j < 0) then i % j + j else i % j

open Sequence

namespace Arith

section

variable [FloatPrinter]

/-- The numbers that two operands are. -/
def operands (op : Operation) (s : Store) (a b : Value) : Except Fault (Number × Number) :=
  match a.number?, b.number? with
  | some x, some y => .ok (x, y)
  | _, _ => .error (.of op (.unsupportedOperands (.ofValue s a) (.ofValue s b)))

/-- The numbers of a division; the second is not zero. -/
def divisionOperands (op : Operation) (s : Store) (a b : Value) :
    Except Fault (Number × Number) := do
  let (x, y) ← operands op s a b
  if y.isZero then .error (.of op (.divisionByZero (.ofValue s a) (.ofValue s b)))
  else return (x, y)

/-- The quotient rounded down. -/
def floordiv (s : Store) (a b : Value) : Except Fault Value := do
  let (x, y) ← divisionOperands .floordiv s a b
  return (Number.lift floorDivInt Binary64.floorDiv x y).toValue

def mod (s : Store) (a b : Value) : Except Fault Value := do
  let (x, y) ← divisionOperands .mod s a b
  return (Number.lift floorModInt Binary64.floorMod x y).toValue

/-- Divide two numbers of one type; the second must not be zero. -/
def divide {α : Type} (op : Operation) (number : α → Number) (f : α → α → α) (a b : α) :
    Except Fault α :=
  if (number b).isZero then
    .error (.of op (.divisionByZero (.ofValue .empty (number a).toValue)
      (.ofValue .empty (number b).toValue)))
  else .ok (f a b)

def floordivInt : Int64 → Int64 → Except Fault Int64 :=
  divide .floordiv .int floorDivInt

def modInt : Int64 → Int64 → Except Fault Int64 :=
  divide .mod .int floorModInt

def floordivFloat : Binary64 → Binary64 → Except Fault Binary64 :=
  divide .floordiv .float Binary64.floorDiv

def modFloat : Binary64 → Binary64 → Except Fault Binary64 :=
  divide .mod .float Binary64.floorMod

def truediv (s : Store) (a b : Value) : Except Fault Value := do
  let (x, y) ← divisionOperands .truediv s a b
  return .float (x.toBinary64.div y.toBinary64)

def sub (s : Store) (a b : Value) : Except Fault Value := do
  let (x, y) ← operands .sub s a b
  return (Number.lift (· - ·) Binary64.sub x y).toValue

def neg (a : Value) : Except Fault Value :=
  match a.number? with
  | some (.int i) => .ok (.int (-i))
  | some (.float x) => .ok (.float x.neg)
  | none => .error (.of .neg (.unsupportedOperand a.kind))

/-- The sum of two numbers, or two sequences of one kind joined into a new one. Joined bytes have
the kind of the first. -/
def add (a b : Value) : Action Fault Value := do
  match a, b with
  | .str x, .str y => return .str (x ++ y)
  | .list x, .list y => newList (← Action.query fun s => s.items x ++ s.items y)
  | _, _ =>
    let joined ← Action.query fun s => do return (← a.byteData? s) ++ (← b.byteData? s)
    match joined with
    | some data => if a.kind = .byteArray then newByteArray data else return .bytes data
    | none =>
      Action.check fun s => do
        let (x, y) ← operands .add s a b
        return (Number.lift (· + ·) Binary64.add x y).toValue

end

/-! ### Repetition -/

/-- Whether a value is a sequence that multiplication repeats. -/
def isRepeatable (v : Value) : Bool :=
  match v.kind with
  | .str | .list | .bytes | .byteArray => true
  | _ => false

theorem isRepeatable_of_integer? {v : Value} {n : Int64} (h : v.integer? = some n) :
    isRepeatable v = false := by
  cases v <;> simp_all [Value.integer?, isRepeatable, Value.kind]

/-- A sequence repeated a number of times. -/
def repeatSequence [Allocator] (v : Value) (count : Nat) : Action Fault Value := do
  match v with
  | .str t =>
    Action.check fun _ => reserveRepeated .mul .byte t.utf8ByteSize count
    return .str (Text.decode (repeatBytes count (Text.utf8 t)))
  | .list r => newList (← repeatItems .mul (← Action.query fun s => s.items r) count)
  | .byteArray r =>
    let data ← Action.query fun s => s.data r
    Action.check fun _ => reserveRepeated .mul .byte data.length count
    newByteArray (repeatBytes count data)
  | .bytes data =>
    Action.check fun _ => reserveRepeated .mul .byte data.length count
    return .bytes (repeatBytes count data)
  | _ => return v
where
  /-- A list repeated; the empty list is not walked. -/
  repeatBytes {α : Type} (count : Nat) (xs : List α) : List α :=
    if xs.isEmpty then [] else repeatList count xs

/-- The product of two numbers, or a sequence repeated an integer number of times. -/
def mul [Platform] (a b : Value) : Action Fault Value :=
  if isRepeatable a then repeated a b
  else if isRepeatable b then repeated b a
  else Action.check fun s => do
    let (x, y) ← operands .mul s a b
    return (Number.lift (· * ·) Binary64.mul x y).toValue
where
  /-- Repeat a sequence if the other operand is an integer. -/
  repeated (sequence count : Value) : Action Fault Value :=
    match count.integer? with
    | some n => repeatSequence sequence (repeatCount n)
    | none => Action.check fun s =>
      .error (.of .mul (.unsupportedOperands (.ofValue s a) (.ofValue s b)))

/-! ### Functions on numbers -/

section

variable [FloatPrinter]

/-- The absolute value; that of the least integer wraps to itself. -/
def abs (v : Value) : Except Fault Value :=
  match v.number? with
  | some (.int i) => .ok (.int (if i < 0 then -i else i))
  | some (.float x) => .ok (.float x.abs)
  | none => .error (.of .abs (.noAbsoluteValue v.kind))

/-- The float that a number is, for a function on floats. -/
def real (op : Operation) (v : Value) : Except Fault Binary64 :=
  match v.number? with
  | some x => .ok x.toBinary64
  | none => .error (.of op (.notReal v.kind))

def applyReal (op : Operation) (f : Binary64 → Binary64) (s : Store) (v : Value) :
    Except Fault Value := do
  let x ← real op v
  let y := f x
  if y.isNaN && !x.isNaN then .error (.of op (.outsideDomain (.ofValue s v)))
  else if y.isInfinite && x.isFinite then .error (.of op (.resultTooLarge (.ofValue s v)))
  else return .float y

def floor (s : Store) (v : Value) : Except Fault Value := do
  match v with
  | .int i => return .int i
  | _ =>
    let x ← real .floor v
    if x.isNaN then .error (.of .floor (.nanHasNoFloor (.ofValue s v)))
    else
      match Text.toInt64? x.floorInt with
      | some i => return .int i
      | none => .error (.of .floor (.floorTooLarge (.ofValue s v)))

end

end Arith

end Dynval
