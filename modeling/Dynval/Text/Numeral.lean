import Dynval.Decimal.Basic
import Dynval.Text.Basic

/-!
# Numbers as text

Integers and binary64 numbers are read from whole texts. White space around them is ignored, one
sign may stand in front, and single underscores may stand between digits. Integers are written in
decimal.
-/

namespace Dynval

/-- The decimal digits of an integer, after a minus sign if it is negative. -/
def intChars (i : Int) : List Char :=
  if i < 0 then '-' :: Nat.toDigits 10 i.natAbs else Nat.toDigits 10 i.natAbs

def intText (i : Int) : String :=
  String.ofList (intChars i)

namespace Text

/-- Remove the underscores that stand between two digits; none may stand elsewhere. `after` says
whether a digit stands in front of the text. -/
def dropSeparators (isDigit : Char → Bool) (after : Bool) : List Char → Option (List Char)
  | [] => some []
  | c :: cs =>
    if c = '_' then
      if after && cs.head?.any isDigit then dropSeparators isDigit false cs else none
    else (dropSeparators isDigit (isDigit c) cs).map (c :: ·)

/-- Take off one sign; the answer says whether it was a minus. -/
def splitSign : List Char → Bool × List Char
  | '+' :: cs => (false, cs)
  | '-' :: cs => (true, cs)
  | cs => (false, cs)

/-- The 64-bit integer with an exact value, if there is one. -/
def toInt64? (i : Int) : Option Int64 :=
  if Int64.minValue.toInt ≤ i ∧ i ≤ Int64.maxValue.toInt then some (Int64.ofInt i) else none

def toInt32? (i : Int) : Option Int32 :=
  if Int32.minValue.toInt ≤ i ∧ i ≤ Int32.maxValue.toInt then some (Int32.ofInt i) else none

/-- The integer that digits denote, with at most a sign before them. -/
def signed? (cs : List Char) : Option Int :=
  let (negative, digits) := splitSign cs
  if digits.isEmpty || !digits.all Char.isDigit then none
  else
    let n : Int := Nat.ofDigitChars 10 digits 0
    some (if negative then -n else n)

def readInt (s : String) : Option Int64 :=
  let text := trim s.toList
  let (_, body) := splitSign text
  if body.isEmpty || !body.all (fun c => c.isDigit || c == '_') then none
  else (dropSeparators Char.isDigit false text).bind fun cs => (signed? cs).bind toInt64?

/-! ### Decimals -/

/-- The exponent part of a decimal literal, which may be missing. -/
def readExponent : List Char → Option Int
  | [] => some 0
  | c :: cs => if c = 'e' ∨ c = 'E' then signed? cs else none

/-- Read a decimal literal without a sign: digits with at most one point, at least one digit, and
an optional exponent. -/
def readDecimal (cs : List Char) : Option Decimal := do
  let whole := cs.takeWhile Char.isDigit
  let rest := cs.dropWhile Char.isDigit
  let (fraction, rest) :=
    match rest with
    | '.' :: cs => (cs.takeWhile Char.isDigit, cs.dropWhile Char.isDigit)
    | cs => ([], cs)
  let exponent ← readExponent rest
  if (whole ++ fraction).isEmpty then none
  else some ⟨Nat.ofDigitChars 10 (whole ++ fraction) 0, exponent - fraction.length⟩

/-! ### Binary64 numbers -/

/-- Read the name of a number that no digits denote, in any letter case. -/
def readSpecial (negative : Bool) (cs : List Char) : Option Binary64 :=
  let name := String.ofList (cs.map Char.toLower)
  if name = "inf" ∨ name = "infinity" then some (Binary64.infinity negative)
  else if name = "nan" then some (if negative then Binary64.nan.neg else Binary64.nan)
  else none

/-- Read a name or a decimal literal, with at most a sign before it. -/
def readNumber (cs : List Char) : Option Binary64 :=
  let (negative, body) := splitSign cs
  (readSpecial negative body).or do
    let decimal ← readDecimal body
    some (Binary64.ofDecimal negative decimal.digits decimal.exponent)

/-- Whether a character can stand in a decimal literal with separators. -/
def isNumberChar (c : Char) : Bool :=
  c.isDigit || c == '_' || c == '.' || c == 'e' || c == 'E' || c == '+' || c == '-'

def readFloat (s : String) : Option Binary64 :=
  let text := trim s.toList
  let (_, body) := splitSign text
  if (readSpecial false body).isNone && !body.all isNumberChar then none
  else (dropSeparators Char.isDigit false text).bind readNumber

end Text

end Dynval
