import Dynval.Frame.Shape
import Dynval.Operation.Basic
import Dynval.Value.Text

/-!
# Faults

The errors that operations raise. A fault is a cause and its origin, the place that raised it. Its
kind has a stable name, and `Fault.message` is its whole text.
-/

namespace Dynval

inductive FaultKind where
  | divisionByZero
  | value
  | type
  | index
  | key
  | overflow
  | memory
  | io
deriving DecidableEq, Inhabited

namespace FaultKind

/-- The name by which a test case expects a fault. -/
def name : FaultKind → String
  | .divisionByZero => "DivisionByZero"
  | .value => "ValueError"
  | .type => "TypeError"
  | .index => "IndexError"
  | .key => "KeyError"
  | .overflow => "OverflowError"
  | .memory => "MemoryError"
  | .io => "Io"

/-- The word with which the message of a fault starts. -/
def label : FaultKind → String
  | .divisionByZero => "ZeroDivisionError"
  | .io => "OSError"
  | kind => kind.name

end FaultKind

/-- What raised a fault: an operation, or a step that operations share. -/
inductive Origin where
  | operation (op : Operation)
  | hash
  | setItem
  | frame
  | checkFrame
  | checkPalette
deriving DecidableEq, Inhabited

def Origin.name : Origin → String
  | .operation op => op.name
  | .hash => "hash"
  | .setItem => "set_item"
  | .frame => "frame"
  | .checkFrame => "check_frame"
  | .checkPalette => "check_palette"

/-! ### Operands -/

/-- A value as it is quoted in a message. -/
structure Operand where
  text : String
  kind : Kind
deriving DecidableEq, Inhabited

namespace Operand

/-- The most characters that are quoted of a value. -/
def limit : Nat := 64

/-- Quote a text of a value; a long one is cut. -/
def ofChars (chars : List Char) (kind : Kind) : Operand :=
  let shown := if limit < chars.length then chars.take limit ++ ['.', '.', '.'] else chars
  ⟨String.ofList shown, kind⟩

def ofValue [FloatPrinter] (s : Store) (v : Value) : Operand :=
  ofChars (v.repr s).toList v.kind

def ofInt (i : Int64) : Operand :=
  ofChars (intChars i.toInt) .int

def message (o : Operand) : String :=
  o.text ++ " (" ++ o.kind.name ++ ")"

end Operand

/-! ### Causes -/

/-- Why an operation failed. -/
inductive Cause where
  | divisionByZero (dividend divisor : Operand)
  | unsupportedOperands (left right : Operand)
  | unsupportedOperand (kind : Kind)
  | noAbsoluteValue (kind : Kind)
  | notReal (kind : Kind)
  | notSubscriptable (kind : Kind)
  | notAnIndex (container key : Kind)
  | notAssignable (kind : Kind)
  | noLength (kind : Kind)
  | textNeedle (kind : Kind)
  | bytesNeedle (kind : Kind)
  | notIterable (kind : Kind)
  | unhashable (kind : Kind)
  | notByteSource (kind : Kind)
  | notCharacter (kind : Kind)
  | notOneCharacter (length : Nat)
  | notText (kind : Kind)
  | byteOutOfRange (operand : Operand)
  | zeroStep (operand : Operand)
  | outsideDomain (operand : Operand)
  | nanHasNoFloor (operand : Operand)
  | noSuchCharacter (operand : Operand)
  | emptySequence (operand : Operand)
  | negativeWidth (operand : Operand)
  | negativeHeight (operand : Operand)
  | frameLength (shape : FrameShape) (operand : Operand)
  | paletteLength (length : Nat) (operand : Operand)
  | indexOutOfRange (index : Int64) (kind : Kind) (length : Nat)
  | noSuchKey (key : Operand)
  | resultTooLarge (operand : Operand)
  | floorTooLarge (operand : Operand)
  | cannotAllocate (elements : Nat)
  | io (reason : String)
deriving DecidableEq, Inhabited

def Kind.quoted (kind : Kind) : String :=
  "'" ++ kind.name ++ "'"

namespace Cause

def kind : Cause → FaultKind
  | divisionByZero .. => .divisionByZero
  | unsupportedOperands .. | unsupportedOperand _ | noAbsoluteValue _ | notReal _
  | notSubscriptable _ | notAnIndex .. | notAssignable _ | noLength _ | textNeedle _
  | bytesNeedle _ | notIterable _ | unhashable _ | notByteSource _ | notCharacter _
  | notOneCharacter _ | notText _ => .type
  | byteOutOfRange _ | zeroStep _ | outsideDomain _ | nanHasNoFloor _ | noSuchCharacter _
  | emptySequence _ | negativeWidth _ | negativeHeight _ | frameLength .. | paletteLength .. =>
    .value
  | indexOutOfRange .. => .index
  | noSuchKey _ => .key
  | resultTooLarge _ | floorTooLarge _ => .overflow
  | cannotAllocate _ => .memory
  | io _ => .io

/-- What happened, before the operand that it happened with. -/
def got (what : String) (operand : Operand) : String :=
  what ++ ", got " ++ operand.message

def text : Cause → String
  | divisionByZero dividend divisor => dividend.message ++ " divided by " ++ divisor.message
  | unsupportedOperands left right =>
    "unsupported operand kinds " ++ left.kind.quoted ++ " and " ++ right.kind.quoted ++ " (" ++
      left.text ++ " and " ++ right.text ++ ")"
  | unsupportedOperand kind => "bad operand kind " ++ kind.quoted
  | noAbsoluteValue kind => "bad operand kind for abs(): " ++ kind.quoted
  | notReal kind => "must be real number, not " ++ kind.quoted
  | notSubscriptable kind => kind.quoted ++ " object is not subscriptable"
  | notAnIndex container key =>
    container.quoted ++ " indices must be integers, not " ++ key.quoted
  | notAssignable kind => kind.quoted ++ " object does not support item assignment"
  | noLength kind => "object of kind " ++ kind.quoted ++ " has no len()"
  | textNeedle kind => "'in <str>' requires str as left operand, not " ++ kind.quoted
  | bytesNeedle kind => "a bytes-like object is required, not " ++ kind.quoted
  | notIterable kind => "argument of kind " ++ kind.quoted ++ " is not iterable"
  | unhashable kind => "unhashable type: " ++ kind.quoted
  | notByteSource kind => "cannot build bytes from " ++ kind.quoted
  | notCharacter kind => "expected a string of length 1, but " ++ kind.quoted ++ " found"
  | notOneCharacter length =>
    "expected a character, but string of length " ++ toString length ++ " found"
  | notText kind => "descriptor requires a 'str' object but received " ++ kind.quoted
  | byteOutOfRange operand => got "byte must be in range(0, 256)" operand
  | zeroStep operand => got "arg 3 must not be zero" operand
  | outsideDomain operand => got "math domain error" operand
  | nanHasNoFloor operand => got "cannot convert float NaN to integer" operand
  | noSuchCharacter operand => got "code point out of range" operand
  | emptySequence operand => got "arg is an empty sequence" operand
  | negativeWidth operand => got "width must not be negative" operand
  | negativeHeight operand => got "height must not be negative" operand
  | frameLength shape operand =>
    let needed := (shape.expectedLength?.map toString).getD "more than usize::MAX"
    got (toString shape.width ++ "x" ++ toString shape.height ++ " " ++ shape.channels.name ++
      " frame needs " ++ needed ++ " bytes") operand
  | paletteLength length operand => got ("palette needs " ++ toString length ++ " bytes") operand
  | indexOutOfRange index kind length =>
    "index " ++ intText index.toInt ++ " out of range for " ++ kind.quoted ++ " of length " ++
      toString length
  | noSuchKey key => key.message
  | resultTooLarge operand => got "math range error" operand
  | floorTooLarge operand => got "float does not fit a 64-bit integer" operand
  | cannotAllocate elements => "cannot allocate " ++ toString elements ++ " elements"
  | io reason => reason

end Cause

/-- An error raised by an operation. -/
structure Fault where
  origin : Origin
  cause : Cause
deriving DecidableEq, Inhabited

namespace Fault

def of (op : Operation) (cause : Cause) : Fault :=
  ⟨.operation op, cause⟩

def kind (f : Fault) : FaultKind := f.cause.kind

/-- The stable name of a fault's kind. -/
def name (f : Fault) : String := f.kind.name

def message (f : Fault) : String :=
  f.kind.label ++ ": " ++ f.origin.name ++ ": " ++ f.cause.text

end Fault

/-- The key that a value stands for. -/
def Key.ofValue (v : Value) : Except Fault Key :=
  match Key.ofValue? v with
  | some key => .ok key
  | none => .error ⟨.hash, .unhashable v.kind⟩

end Dynval
