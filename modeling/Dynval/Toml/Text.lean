import Dynval.Decimal.Text
import Dynval.Toml.Basic

/-!
# Writing TOML values

The text of a TOML value on one line, as it is quoted in messages. A text goes between double
quotes if nothing in it has to be escaped, otherwise between single quotes, three double quotes or
three single quotes, whichever first holds it as it is. If none does, it is escaped.
-/

namespace Dynval.Toml

/-- Four upper-case hexadecimal digits. -/
def hexFour (n : Nat) : List Char :=
  [n / 4096 % 16, n / 256 % 16, n / 16 % 16, n % 16].map fun d => (Nat.digitChar d).toUpper

def isAsciiControl (c : Char) : Bool :=
  decide (c.toNat < 0x20) || c.toNat == 0x7f

/-- The quotes around a text. -/
inductive Quotes where
  | basic
  | literal
  | multilineBasic
  | multilineLiteral
deriving DecidableEq, Inhabited

namespace Quotes

/-- The characters on each side of a text. -/
def mark : Quotes → List Char
  | basic => ['"']
  | literal => ['\'']
  | multilineBasic => ['"', '"', '"']
  | multilineLiteral => ['\'', '\'', '\'']

/-- Whether line feeds stand for themselves. -/
def isMultiline (q : Quotes) : Bool :=
  q = multilineBasic || q = multilineLiteral

def isBasic (q : Quotes) : Bool :=
  q = basic || q = multilineBasic

end Quotes

/-- A character that is no double quote, between double quotes. -/
def escapeChar (multiline : Bool) (c : Char) : List Char :=
  match c with
  | '\x08' => ['\\', 'b']
  | '\t' => ['\\', 't']
  | '\n' => if multiline then ['\n'] else ['\\', 'n']
  | '\x0c' => ['\\', 'f']
  | '\r' => ['\\', 'r']
  | '\\' => ['\\', '\\']
  | _ => if isAsciiControl c then '\\' :: 'u' :: hexFour c.toNat else [c]

/-- A text between double quotes. Between three of them, two double quotes in a row may stand for
themselves; `run` of them stand in front. -/
def escapeText (multiline : Bool) (run : Nat) : List Char → List Char
  | [] => []
  | c :: cs =>
    if c = '"' then
      if multiline && decide (run < 2) then '"' :: escapeText multiline (run + 1) cs
      else '\\' :: '"' :: escapeText multiline 0 cs
    else escapeChar multiline c ++ escapeText multiline 0 cs

/-- A text between quotes. A text of several lines starts on a line of its own. -/
def Quotes.enclose (q : Quotes) (cs : List Char) : List Char :=
  let start := if q.isMultiline && cs.contains '\n' then ['\n'] else []
  let body := if q.isBasic then escapeText q.isMultiline 0 cs else cs
  q.mark ++ start ++ body ++ q.mark

/-- The length of the longest run of a character, where `run` of them stand in front. -/
def longestRun (quote : Char) (run : Nat) : List Char → Nat
  | [] => run
  | c :: cs =>
    if c = quote then longestRun quote (run + 1) cs else max run (longestRun quote 0 cs)

/-- Whether a text holds a control character that has to be escaped everywhere. -/
def needsCodes (cs : List Char) : Bool :=
  cs.any fun c => isAsciiControl c && c != '\t' && c != '\n'

/-- The quotes that suit a text. -/
def quotesFor (cs : List Char) : Quotes :=
  let newline := cs.contains '\n'
  let escape := cs.contains '\\'
  let doubles := longestRun '"' 0 cs
  let singles := longestRun '\'' 0 cs
  if needsCodes cs then if newline then .multilineBasic else .basic
  else if !escape && !newline && doubles == 0 then .basic
  else if !newline && singles == 0 then .literal
  else if !escape && decide (doubles ≤ 2) then .multilineBasic
  else if decide (singles ≤ 2) then .multilineLiteral
  else if newline then .multilineBasic
  else .basic

def quotedText (cs : List Char) : List Char :=
  (quotesFor cs).enclose cs

/-- A key, between quotes of one line if it needs them. -/
def keyText (key : String) : List Char :=
  let cs := key.toList
  if !cs.isEmpty && cs.all isKeyChar then cs
  else if !cs.contains '"' && !cs.contains '\\' then Quotes.basic.enclose cs
  else if needsCodes cs || cs.contains '\n' || cs.contains '\'' then Quotes.basic.enclose cs
  else Quotes.literal.enclose cs

/-- A float in positional notation, with all digits of its shortest decimal; a tie goes up. -/
def floatText (x : Binary64) : List Char :=
  let sign := if x.isNegative then ['-'] else []
  if x.isNaN then ['n', 'a', 'n']
  else if x.isInfinite then sign ++ ['i', 'n', 'f']
  else if x.isZero then sign ++ ['0', '.', '0']
  else
    let decimal := Decimal.shortest .up x.abs
    sign ++ Decimal.positional (Nat.toDigits 10 decimal.digits) decimal.leading

def text : Toml → List Char
  | .string s => quotedText s.toList
  | .integer i => intChars i.toInt
  | .float x => floatText x
  | .boolean true => "true".toList
  | .boolean false => "false".toList
  | .datetime t => t.toList
  | .array items => '[' :: List.intercalate [',', ' '] (items.map text) ++ [']']
  | .table entries =>
    let parts := entries.map fun e => keyText e.1 ++ " = ".toList ++ text e.2
    if parts.isEmpty then ['{', '}']
    else '{' :: ' ' :: List.intercalate [',', ' '] parts ++ [' ', '}']
decreasing_by
  · decreasing_tactic
  · rename_i h
    have := List.sizeOf_lt_of_mem h
    cases e
    simp only [Toml.table.sizeOf_spec, Prod.mk.sizeOf_spec] at *
    omega

/-- The characters of a value that stands alone: a date is written as a table. -/
def aloneText : Toml → List Char
  | .datetime t => text (.table [(datetimeKey, .string t)])
  | v => text v

end Dynval.Toml
