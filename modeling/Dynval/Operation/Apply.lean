import Dynval.Container
import Dynval.Number.Order
import Dynval.Sequence.Items

/-!
# Calling operations

Every operation on a list of arguments. Missing arguments are nil. Values are printed on a line,
with blanks between them, into a sink that may refuse.
-/

namespace Dynval

/-! ### Printing -/

/-- The line that values print as, without its end. -/
def lineOf [FloatPrinter] (s : Store) (values : List Value) : String :=
  " ".intercalate (values.map (Value.display s))

/-- Where text goes: what writing and flushing answer in a monad, each with a reason if it
fails. -/
structure Sink (m : Type → Type) where
  write : String → m (Except String Unit)
  flush : m (Except String Unit)

/-- Print values on a line and flush the sink. -/
def printTo {m : Type → Type} [Monad m] [FloatPrinter] (sink : Sink m) (s : Store)
    (values : List Value) : m (Except Fault Unit) := do
  let refuse := fun reason => Except.error (Fault.of .print (.io reason))
  match ← sink.write (lineOf s values ++ "\n") with
  | .error reason => return refuse reason
  | .ok () =>
    match ← sink.flush with
    | .error reason => return refuse reason
    | .ok () => return .ok ()

/-! ### Characters -/

def codePoint (v : Value) : Except Fault Nat :=
  match v with
  | .str t =>
    match Text.length t, Text.get? t 0 with
    | 1, some c => .ok c.toNat
    | n, _ => .error (.of .ord (.notOneCharacter n))
  | _ => .error (.of .ord (.notCharacter v.kind))

/-- The text of one character with a code point. -/
def character (code : Int64) : Except Fault Value :=
  let n := code.toInt.toNat
  if 0 ≤ code.toInt ∧ n.isValidChar then .ok (.ofChar (Char.ofNat n))
  else .error (.of .chr (.noSuchCharacter (.ofInt code)))

/-! ### Calls -/

namespace Operation

/-- The value of an order: -1, 0, 1, or nil for unordered values. -/
def orderValue : Option Ordering → Value
  | some .lt => .int (-1)
  | some .eq => .int 0
  | some .gt => .int 1
  | none => .nil

/-- A bound of a slice: nil stands for a missing one. -/
def bound (v : Value) : Action Fault (Option Int64) :=
  match v with
  | .nil => return none
  | _ => return some (← v.asInt)

def testText (op : Operation) (p : String → Bool) (v : Value) : Except Fault Value :=
  match v with
  | .str t => .ok (.bool (p t))
  | _ => .error (.of op (.notText v.kind))

/-- The range that one, two or three integers denote. -/
def rangeOf [Allocator] : List Int64 → Except Fault (List Int64)
  | [] => .ok []
  | [stop] => Sequence.range 0 stop 1
  | [start, stop] => Sequence.range start stop 1
  | start :: stop :: step :: _ => Sequence.range start stop step

/-- Pick one of the arguments, or of the items of a single argument, from left to right. -/
def pickFrom (op : Operation) (pick : Store → Value → Value → Except Fault Value)
    (args : List Value) : Action Fault Value := do
  let candidates ← match args with
    | [single] => Sequence.items single
    | _ => pure args
  match candidates with
  | [] => Action.fail (.of op (.emptySequence ⟨"[]", .list⟩))
  | first :: rest => Action.check fun s => rest.foldlM (pick s) first

/-- The text without the line ends behind it. -/
def dropLineEnds (t : String) : String :=
  String.ofList (t.toList.reverse.dropWhile (· == '\n')).reverse

/-- Call an operation. -/
def apply [Platform] (op : Operation) (args : List Value) (policy : Policy) :
    Action Fault Value := do
  let a := args.getD 0 .nil
  let b := args.getD 1 .nil
  let c := args.getD 2 .nil
  match op with
  | truthy => return .bool (← Action.query fun s => a.truthy s)
  | toInt => return .int (← a.asInt)
  | toFloat => return .float (← a.asFloat)
  | toStr => return .str (← Action.query fun s => a.toText s)
  | getIndex => Subscript.getWith policy a (← b.asInt)
  | getItem => Subscript.getItemWith policy a b
  | setIndex =>
    Subscript.setWith policy a (← b.asInt) c
    return a
  | slice =>
    let lo ← bound b
    let hi ← bound c
    Subscript.slice a lo hi
  | floordiv => Action.check fun s => Arith.floordiv s a b
  | mod => Action.check fun s => Arith.mod s a b
  | add => Arith.add a b
  | sub => Action.check fun s => Arith.sub s a b
  | mul => Arith.mul a b
  | truediv => Action.check fun s => Arith.truediv s a b
  | neg => Action.check fun _ => Arith.neg a
  | compare => return orderValue (← Action.check fun s => a.compare s b)
  | bytearray =>
    match a with
    | .int n => Sequence.zeroByteArray n
    | _ => Sequence.byteArrayFrom a
  | bytes => Sequence.byteStringFrom a
  | listRepeat => Sequence.listRepeat a (← b.asInt)
  | range =>
    let bounds ← args.mapM Value.asInt
    newList ((← Action.check fun _ => rangeOf bounds).map Value.int)
  | enumerate =>
    let pairs ← Sequence.enumerate a
    newList (← pairs.mapM fun (i, item) => newList [.ofNat i, item])
  | isdigit => Action.check fun _ => testText isdigit Text.isDigits a
  | isalpha => Action.check fun _ => testText isalpha Text.isLetters a
  | isspace => Action.check fun _ => testText isspace Text.isSpaces a
  | isalnum => Action.check fun _ => testText isalnum Text.isAlphanumeric a
  | ord => return .ofNat (← Action.check fun _ => codePoint a)
  | chr =>
    let code ← a.asInt
    Action.check fun _ => character code
  | len => return .ofNat (← Action.check fun s => a.length s)
  | contains => return .bool (← Action.check fun s => a.contains s b)
  | stringify => return .str (← Action.query fun s => a.display s)
  | repr => return .str (← Action.query fun s => a.repr s)
  | min => pickFrom min Value.lesser args
  | max => pickFrom max Value.greater args
  | print => return .str (← Action.query fun s => dropLineEnds (lineOf s args ++ "\n"))
  | abs => Action.check fun _ => Arith.abs a
  | sqrt => Action.check fun s => Arith.applyReal sqrt Binary64.sqrt s a
  | sin => Action.check fun s => Arith.applyReal sin Binary64.sin s a
  | cos => Action.check fun s => Arith.applyReal cos Binary64.cos s a
  | exp => Action.check fun s => Arith.applyReal exp Binary64.exp s a
  | floor => Action.check fun s => Arith.floor s a

end Operation

end Dynval
