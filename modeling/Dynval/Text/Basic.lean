/-!
# Texts

Length, element and slice of a text count Unicode scalar values. A text of one-byte characters is
addressed by its bytes; any other text through the byte offsets of its characters. Texts are
searched and ordered by their UTF-8 bytes. The classes of characters know ASCII only, and no class
holds of the empty text.

Bytes are read as UTF-8. Where they start no character, a replacement character stands for the
longest part of them that could have started one, or else for the first byte.
-/

namespace Dynval

namespace Text

/-- The UTF-8 bytes of a text. -/
def utf8 (s : String) : List UInt8 :=
  s.toUTF8.data.toList

/-- Whether every character takes one byte. -/
def isAscii (s : String) : Bool :=
  (utf8 s).all (· < 128)

def length (s : String) : Nat :=
  if isAscii s then s.utf8ByteSize else s.toList.length

def get? (s : String) (i : Nat) : Option Char :=
  if isAscii s then (utf8 s)[i]?.map fun b => Char.ofNat b.toNat else s.toList[i]?

/-- The byte offsets at which characters start, and the offset past the last one. -/
def offsets (start : Nat) : List Char → List Nat
  | [] => [start]
  | c :: cs => start :: offsets (start + c.utf8Size) cs

/-- Go on in a list to the item at a position: that item, if there is one, and what comes behind
it. -/
def walkTo {α : Type} : Nat → List α → Option α × List α
  | _, [] => (none, [])
  | 0, x :: xs => (some x, xs)
  | n + 1, _ :: xs => walkTo n xs

/-- The byte offsets of two positions in a text of one-byte characters. -/
def byteBounds (s : String) (lo hi : Nat) : Nat × Nat :=
  (min lo s.utf8ByteSize, min hi s.utf8ByteSize)

/-- The byte offsets of two positions in any text. The offsets of its characters are walked once:
to the first position, and on from there to the second. -/
def scalarBounds (s : String) (lo hi : Nat) : Nat × Nat :=
  let (start, rest) := walkTo lo (offsets 0 s.toList)
  let (stop, _) := walkTo (hi - lo - 1) rest
  (start.getD s.utf8ByteSize, stop.getD s.utf8ByteSize)

/-- The characters at the positions from `lo` up to `hi`, as many as there are. -/
def slice (s : String) (lo hi : Nat) : String :=
  if hi ≤ lo then ""
  else
    let (start, stop) := if isAscii s then byteBounds s lo hi else scalarBounds s lo hi
    String.Pos.Raw.extract s ⟨start⟩ ⟨stop⟩

/-! ### Bytes as text -/

/-- The character that stands for bytes that are no text. -/
def replacement : Char := '\ufffd'

/-- How many bytes the character with a first byte has; none for a byte that starts no character. -/
def width (first : UInt8) : Nat :=
  if first < 0x80 then 1
  else if first < 0xc2 then 0
  else if first < 0xe0 then 2
  else if first < 0xf0 then 3
  else if first < 0xf5 then 4
  else 0

/-- Whether a byte is one of the later bytes of characters. -/
def isContinuation (b : UInt8) : Bool :=
  0x80 ≤ b && b < 0xc0

/-- Whether a byte can be the second one, behind the first byte of a longer character. -/
def isSecond (first b : UInt8) : Bool :=
  isContinuation b &&
    (first != 0xe0 || 0xa0 ≤ b) && (first != 0xed || b < 0xa0) &&
    (first != 0xf0 || 0x90 ≤ b) && (first != 0xf4 || b < 0x90)

/-- The bytes behind a first byte that go on with its character, as far as they do. -/
def continuation (first : UInt8) (bytes : List UInt8) : List UInt8 :=
  match bytes.take (width first - 1) with
  | [] => []
  | second :: rest =>
    if isSecond first second then second :: rest.takeWhile isContinuation else []

/-- The character at the front of bytes. -/
def firstChar? (bytes : List UInt8) : Option Char :=
  (bytes.take 4).toByteArray.utf8DecodeChar? 0

/-- The characters of bytes. -/
def decodeChars : List UInt8 → List Char
  | [] => []
  | b :: bytes =>
    match firstChar? (b :: bytes) with
    | some c => c :: decodeChars (bytes.drop (c.utf8Size - 1))
    | none => replacement :: decodeChars (bytes.drop (continuation b bytes).length)
termination_by bytes => bytes.length
decreasing_by all_goals simp only [List.length_drop, List.length_cons]; omega

def decode (bytes : List UInt8) : String :=
  String.ofList (decodeChars bytes)

/-- The part of a text before and after the first character of a kind. -/
def splitAt? (p : Char → Bool) (cs : List Char) : List Char × Option (List Char) :=
  match cs.dropWhile fun c => !p c with
  | [] => (cs, none)
  | _ :: rest => (cs.takeWhile fun c => !p c, some rest)

/-! ### White space -/

def isBlank (c : Char) : Bool :=
  let n := c.toNat
  decide (9 ≤ n ∧ n ≤ 13) || n == 0x20 || n == 0x85 || n == 0xa0 || n == 0x1680 ||
    decide (0x2000 ≤ n ∧ n ≤ 0x200a) || n == 0x2028 || n == 0x2029 || n == 0x202f ||
    n == 0x205f || n == 0x3000

/-- The characters without white space at either end. -/
def trim (cs : List Char) : List Char :=
  ((cs.dropWhile isBlank).reverse.dropWhile isBlank).reverse

end Text

/-! ### Searching -/

/-- Whether a list stands somewhere in another one, without gaps. -/
def occursIn {α : Type} [BEq α] (needle : List α) : List α → Bool
  | [] => needle.isEmpty
  | x :: xs => needle.isPrefixOf (x :: xs) || occursIn needle xs

/-- The parts of a list that have a number of elements, from left to right; the number is not
zero. -/
def windows {α : Type} (size : Nat) (_ : 0 < size) (xs : List α) : List (List α) :=
  (List.range (xs.length + 1 - size)).map fun start => (xs.drop start).take size

/-! ### Lexicographic order -/

/-- Lexicographic order of two lists. -/
def compareLex {α : Type} (cmp : α → α → Ordering) : List α → List α → Ordering
  | [], [] => .eq
  | [], _ :: _ => .lt
  | _ :: _, [] => .gt
  | x :: xs, y :: ys => (cmp x y).then (compareLex cmp xs ys)

def compareBytes : List UInt8 → List UInt8 → Ordering :=
  compareLex compare

namespace Text

def contains (s needle : String) : Bool :=
  occursIn (utf8 needle) (utf8 s)

def compare (s t : String) : Ordering :=
  compareBytes (utf8 s) (utf8 t)

/-! ### Character classes -/

/-- Whether a text is not empty and all its characters are in a class. -/
def allIn (p : Char → Bool) (s : String) : Bool :=
  !s.isEmpty && s.toList.all p

def isDigits (s : String) : Bool := allIn Char.isDigit s

def isLetters (s : String) : Bool := allIn Char.isAlpha s

def isAlphanumeric (s : String) : Bool := allIn Char.isAlphanum s

/-- Whether a character is a space, a tab, a line feed, a vertical tab, a form feed or a carriage
return. -/
def isSpaceChar (c : Char) : Bool :=
  c == ' ' || decide (9 ≤ c.toNat ∧ c.toNat ≤ 13)

def isSpaces (s : String) : Bool := allIn isSpaceChar s

end Text

end Dynval
