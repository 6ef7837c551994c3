import Dynval.Text.Numeral

/-!
# TOML values

The values of the TOML configuration format. The entries of a table are in the order in which they
are written; a table made by `Toml.ofEntries` has them in the order of the UTF-8 bytes of their
keys. The readers of numbers and dates take a whole token and answer nothing if it is not of their
kind.

A date can be written as a table: its first key says so, and the text under that key is the date.
In a canonical value no table is written in this way, and the entries of every table are in the
order of their keys.
-/

namespace Dynval

/-- A TOML value. -/
inductive Toml where
  | string (s : String)
  | integer (i : Int64)
  | float (x : Binary64)
  | boolean (b : Bool)
  /-- A date, a time or both, as it is written. -/
  | datetime (text : String)
  | array (items : List Toml)
  | table (entries : List (String × Toml))
deriving Inhabited

namespace Toml

/-- Whether a character can stand in a key without quotes. -/
def isKeyChar (c : Char) : Bool :=
  c.isAlphanum || c == '_' || c == '-'

/-- Put an entry into its place, instead of an entry of the same key. -/
def insertEntry {α : Type} (key : String) (a : α) : List (String × α) → List (String × α)
  | [] => [(key, a)]
  | (k, b) :: rest =>
    match Text.compare key k with
    | .lt => (key, a) :: (k, b) :: rest
    | .eq => (key, a) :: rest
    | .gt => (k, b) :: insertEntry key a rest

/-- The table with the given entries; of two entries with one key the later one counts. -/
def ofEntries (entries : List (String × Toml)) : Toml :=
  .table (entries.foldl (fun table e => insertEntry e.1 e.2 table) [])

/-! ### Digits -/

/-- Digits, with single underscores between them. -/
def digits? (isDigit : Char → Bool) (cs : List Char) : Option (List Char) := do
  let digits ← Text.dropSeparators isDigit false cs
  if digits.isEmpty || !digits.all isDigit then none else some digits

/-- Decimal digits without a needless zero in front. -/
def wholeDigits? (cs : List Char) : Option (List Char) := do
  let digits ← digits? Char.isDigit cs
  if digits.head? = some '0' ∧ digits.length ≠ 1 then none else some digits

/-! ### Integers -/

def digitValue (c : Char) : Nat :=
  if c.isDigit then c.toNat - 48 else c.toLower.toNat - 87

def isDigitOf (base : Nat) (c : Char) : Bool :=
  (c.isDigit || decide ('a' ≤ c.toLower ∧ c.toLower ≤ 'f')) && decide (digitValue c < base)

/-- An integer in a base, with no sign. -/
def basedInteger? (base : Nat) (cs : List Char) : Option Int64 := do
  let digits ← digits? (isDigitOf base) cs
  Text.toInt64? (digits.foldl (fun n c => n * base + digitValue c) 0 : Nat)

def integer? (token : List Char) : Option Int64 :=
  match token with
  | '0' :: 'x' :: cs => basedInteger? 16 cs
  | '0' :: 'o' :: cs => basedInteger? 8 cs
  | '0' :: 'b' :: cs => basedInteger? 2 cs
  | _ => do
    let (negative, body) := Text.splitSign token
    let n : Int := Nat.ofDigitChars 10 (← wholeDigits? body) 0
    Text.toInt64? (if negative then -n else n)

/-! ### Floats -/

/-- The integer after an exponent mark; zero if there is none. -/
def exponent? : Option (List Char) → Option Int
  | none => some 0
  | some cs => do
    let (negative, body) := Text.splitSign cs
    let n : Int := Nat.ofDigitChars 10 (← digits? Char.isDigit body) 0
    some (if negative then -n else n)

/-- The digits after a point; none if there is no point. -/
def fraction? : Option (List Char) → Option (List Char)
  | none => some []
  | some cs => digits? Char.isDigit cs

/-- A float with a point, an exponent or both. A literal above every finite number is refused. -/
def decimalFloat? (negative : Bool) (body : List Char) : Option Binary64 := do
  let (mantissa, exponentPart) := Text.splitAt? (fun c => c == 'e' || c == 'E') body
  let (wholePart, fractionPart) := Text.splitAt? (· == '.') mantissa
  if exponentPart.isNone && fractionPart.isNone then none
  else
    let whole ← wholeDigits? wholePart
    let fraction ← fraction? fractionPart
    let exponent ← exponent? exponentPart
    let x := Binary64.ofDecimal negative (Nat.ofDigitChars 10 (whole ++ fraction) 0)
      (exponent - fraction.length)
    if x = Binary64.infinity false then none else some x

def float? (token : List Char) : Option Binary64 :=
  let (negative, body) := Text.splitSign token
  if body = ['i', 'n', 'f'] then some (Binary64.infinity negative)
  else if body = ['n', 'a', 'n'] then
    some (if negative then Binary64.nan.neg else Binary64.nan)
  else decimalFloat? negative body

/-! ### Dates and times -/

/-- A number of exactly so many digits in a range, and what follows it. -/
def fixedDigits? (width lo hi : Nat) (cs : List Char) : Option (Nat × List Char) :=
  let digits := cs.take width
  let n := Nat.ofDigitChars 10 digits 0
  if digits.length = width ∧ digits.all Char.isDigit ∧ lo ≤ n ∧ n ≤ hi then
    some (n, cs.drop width)
  else none

/-- What follows an expected character. -/
def after? (c : Char) : List Char → Option (List Char)
  | d :: cs => if c = d then some cs else none
  | [] => none

def isLeapYear (year : Nat) : Bool :=
  year % 4 == 0 && (year % 100 != 0 || year % 400 == 0)

def daysInMonth (year month : Nat) : Nat :=
  if month = 2 then if isLeapYear year then 29 else 28
  else if month = 4 ∨ month = 6 ∨ month = 9 ∨ month = 11 then 30
  else 31

/-- A number with zeros in front up to a width. -/
def padded (width n : Nat) : List Char :=
  let digits := Nat.toDigits 10 n
  List.replicate (width - digits.length) '0' ++ digits

/-- A date; the answer is its text and what follows it. -/
def date? (cs : List Char) : Option (List Char × List Char) := do
  let (year, cs) ← fixedDigits? 4 0 9999 cs
  let (month, cs) ← fixedDigits? 2 1 12 (← after? '-' cs)
  let (day, cs) ← fixedDigits? 2 1 (daysInMonth year month) (← after? '-' cs)
  some (padded 4 year ++ '-' :: padded 2 month ++ '-' :: padded 2 day, cs)

/-- The fraction of a second, cut after nine digits and written without final zeros. -/
def secondFraction? : List Char → Option (List Char × List Char)
  | '.' :: cs =>
    let digits := cs.takeWhile Char.isDigit
    let shown := ((digits.take 9).reverse.dropWhile (· == '0')).reverse
    if digits.isEmpty then none
    else some (if shown.isEmpty then [] else '.' :: shown, cs.dropWhile Char.isDigit)
  | cs => some ([], cs)

/-- A time of day; the answer is its text and what follows it. -/
def time? (cs : List Char) : Option (List Char × List Char) := do
  let (hour, cs) ← fixedDigits? 2 0 23 cs
  let (minute, cs) ← fixedDigits? 2 0 59 (← after? ':' cs)
  let (second, cs) ← fixedDigits? 2 0 60 (← after? ':' cs)
  let (fraction, cs) ← secondFraction? cs
  some (padded 2 hour ++ ':' :: padded 2 minute ++ ':' :: padded 2 second ++ fraction, cs)

/-- A time zone, which may be missing, up to the end of the token. -/
def zone? : List Char → Option (List Char)
  | [] => some []
  | ['Z'] | ['z'] => some ['Z']
  | sign :: cs => do
    let (hour, cs) ← fixedDigits? 2 0 23 cs
    let (minute, cs) ← fixedDigits? 2 0 59 (← after? ':' cs)
    if (sign = '+' ∨ sign = '-') ∧ cs = [] then
      let shown := if hour = 0 ∧ minute = 0 then '+' else sign
      some (shown :: padded 2 hour ++ ':' :: padded 2 minute)
    else none

/-- Whether a character stands between a date and a time. -/
def isDateSeparator (c : Char) : Bool :=
  c == 'T' || c == 't' || c == ' '

/-- A date, a time of day, or a date with a time of day and perhaps a time zone. -/
def datetime? (token : List Char) : Option String := do
  match date? token with
  | some (date, []) => some (String.ofList date)
  | some (date, separator :: cs) =>
    if isDateSeparator separator then
      let (time, cs) ← time? cs
      let zone ← zone? cs
      some (String.ofList (date ++ 'T' :: time ++ zone))
    else none
  | none =>
    match ← time? token with
    | (time, []) => some (String.ofList time)
    | _ => none

/-! ### Canonical values -/

/-- The first key of a table that stands for a date. -/
def datetimeKey : String := "$__toml_private_datetime"

mutual

/-- The canonical form of a value. A table that should stand for a date and does not has none. -/
def canonical? : Toml → Option Toml
  | .array items => do return .array (← canonicalItems? items)
  | .table [] => some (.table [])
  | .table ((key, v) :: rest) =>
    if key = datetimeKey then
      match v with
      | .string s => (datetime? s.toList).map .datetime
      | _ => none
    else do
      let v ← canonical? v
      return ofEntries ((key, v) :: (← canonicalEntries? rest))
  | v => some v

def canonicalItems? : List Toml → Option (List Toml)
  | [] => some []
  | v :: rest => do
    let v ← canonical? v
    return v :: (← canonicalItems? rest)

def canonicalEntries? : List (String × Toml) → Option (List (String × Toml))
  | [] => some []
  | (key, v) :: rest => do
    let v ← canonical? v
    return (key, v) :: (← canonicalEntries? rest)

end

end Toml

end Dynval
