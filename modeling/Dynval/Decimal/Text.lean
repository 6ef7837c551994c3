import Dynval.Text.Numeral

/-!
# Decimal text of binary64 numbers

The digits of a positive number come as a decimal literal of any layout, from a `FloatPrinter`. Only
its significant digits and the place of the first of them matter. A first digit with a decimal
exponent from -4 to 15 is written positionally, with at least one digit on each side of the point;
all others in scientific notation, with a signed exponent of at least two digits.
-/

namespace Dynval

namespace Decimal

/-- The digits of a literal without zeros at either end, and the decimal exponent of the first of
them. Exponents are 32-bit integers; one that does not fit counts as zero. -/
def significant (literal : List Char) : List Char × Int32 :=
  let (mantissa, exponent) := Text.splitAt? (fun c => c == 'e' || c == 'E') literal
  let shift := (exponent.bind fun cs => (Text.signed? cs).bind Text.toInt32?).getD 0
  let (whole, fraction) := Text.splitAt? (· == '.') mantissa
  let all := whole ++ fraction.getD []
  let stripped := all.dropWhile (· == '0')
  let point := Int32.ofNat whole.length - Int32.ofNat (all.length - stripped.length)
  ((stripped.reverse.dropWhile (· == '0')).reverse, point - 1 + shift)

/-- Digits with a point: `leading` is the decimal exponent of the first digit. -/
def positional (digits : List Char) (leading : Int) : List Char :=
  if leading < 0 then
    ['0', '.'] ++ List.replicate (-leading - 1).toNat '0' ++ digits
  else
    let whole := leading.toNat + 1
    if digits.length ≤ whole then
      digits ++ List.replicate (whole - digits.length) '0' ++ ['.', '0']
    else
      digits.take whole ++ ['.'] ++ digits.drop whole

/-- An exponent with its sign and at least two digits. -/
def exponentText (e : Int) : List Char :=
  let digits := Nat.toDigits 10 e.natAbs
  (if e < 0 then '-' else '+') :: List.replicate (2 - digits.length) '0' ++ digits

/-- One digit, the others after a point, and an exponent. -/
def scientific (digits exponent : List Char) : List Char :=
  digits.take 1 ++ (if digits.length ≤ 1 then [] else '.' :: digits.drop 1) ++ 'e' :: exponent

/-- Digits in the layout that the decimal exponent of the first of them asks for. -/
def layout (digits : List Char) (leading : Int) : List Char :=
  if -4 ≤ leading ∧ leading < 16 then positional digits leading
  else scientific digits (exponentText leading)

theorem mem_positional {digits : List Char} {leading : Int} {c : Char}
    (h : c ∈ positional digits leading) : c ∈ digits ∨ c = '0' ∨ c = '.' := by
  unfold positional at h
  dsimp only at h
  split at h
  · simp only [List.cons_append, List.nil_append, List.mem_cons, List.mem_append,
      List.mem_replicate] at h
    rcases h with rfl | rfl | ⟨-, rfl⟩ | h <;> simp [*]
  · split at h
    · simp only [List.mem_append, List.mem_replicate, List.mem_cons, List.not_mem_nil] at h
      rcases h with (h | ⟨-, rfl⟩) | rfl | rfl | h <;> simp_all
    · simp only [List.mem_append, List.mem_singleton] at h
      rcases h with (h | rfl) | h
      · exact .inl (List.mem_of_mem_take h)
      · exact .inr (.inr rfl)
      · exact .inl (List.mem_of_mem_drop h)

theorem mem_scientific {digits exponent : List Char} {c : Char}
    (h : c ∈ scientific digits exponent) : c ∈ digits ∨ c = '.' ∨ c = 'e' ∨ c ∈ exponent := by
  simp only [scientific, List.mem_append, List.mem_cons] at h
  rcases h with (h | h) | rfl | h
  · exact .inl (List.mem_of_mem_take h)
  · split at h
    · cases h
    · rcases List.mem_cons.1 h with rfl | h
      · exact .inr (.inl rfl)
      · exact .inl (List.mem_of_mem_drop h)
  · exact .inr (.inr (.inl rfl))
  · exact .inr (.inr (.inr h))

/-- Whether a character can stand in the literal of a number. -/
def isLiteralChar (c : Char) : Bool :=
  c.isDigit || c == '.' || c == 'e' || c == '-'

end Decimal

/-- What finds the digits of binary64 numbers: a literal for every positive finite one. -/
class FloatPrinter where
  literal : Binary64 → List Char
  isLiteralChar_literal : ∀ x, ∀ c ∈ literal x, Decimal.isLiteralChar c

namespace Binary64

/-- The characters of a number; `literal` finds the digits of a positive finite one. -/
def charsWith (literal : Binary64 → List Char) (x : Binary64) : List Char :=
  let sign := if x.isNegative then ['-'] else []
  if x.isNaN then ['n', 'a', 'n']
  else if x.isInfinite then sign ++ ['i', 'n', 'f']
  else if x.isZero then sign ++ ['0', '.', '0']
  else
    let (digits, leading) := Decimal.significant (literal x.abs)
    sign ++ Decimal.layout digits leading.toInt

variable [FloatPrinter]

def textChars (x : Binary64) : List Char :=
  x.charsWith FloatPrinter.literal

def text (x : Binary64) : String :=
  String.ofList x.textChars

end Binary64

end Dynval
