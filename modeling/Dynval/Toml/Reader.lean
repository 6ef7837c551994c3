import Dynval.Toml.Basic

/-!
# Reading TOML values

Readers take a value, a key or white space off the front of a text and answer it with what follows.
They answer nothing if the text does not start as it should. The readers of nested values count
down a bound on their steps, which the length of the text never reaches, and a bound on the nesting
of arrays and inline tables.
-/

namespace Dynval.Toml

/-! ### White space and comments -/

def isBlankChar (c : Char) : Bool :=
  c == ' ' || c == '\t'

def skipBlanks (cs : List Char) : List Char :=
  cs.dropWhile isBlankChar

/-- What follows the end of a line. -/
def lineEnd? : List Char → Option (List Char)
  | '\n' :: cs => some cs
  | '\r' :: '\n' :: cs => some cs
  | _ => none

/-- Whether a character can stand for itself in a comment or in a text of one line. -/
def isPlainChar (c : Char) : Bool :=
  c == '\t' || (decide (0x20 ≤ c.toNat) && c.toNat != 0x7f)

/-- What follows a comment, which may be missing. -/
def skipComment : List Char → List Char
  | '#' :: cs => cs.dropWhile isPlainChar
  | cs => cs

/-- What follows the rest of a line that holds nothing but blanks and a comment. -/
def restOfLine? (cs : List Char) : Option (List Char) :=
  match skipComment (skipBlanks cs) with
  | [] => some []
  | cs => lineEnd? cs

/-- What follows blanks, comments and ends of lines. -/
def skipLines : Nat → List Char → Option (List Char)
  | 0, _ => none
  | fuel + 1, cs =>
    match skipBlanks cs with
    | '#' :: cs => do skipLines fuel (← lineEnd? (skipComment ('#' :: cs)))
    | cs =>
      match lineEnd? cs with
      | some cs => skipLines fuel cs
      | none => some cs

/-! ### Texts -/

def charOfHex? (digits : List Char) : Option Char :=
  let n := digits.foldl (fun n c => n * 16 + digitValue c) 0
  if digits.all (isDigitOf 16) ∧ n.isValidChar then some (Char.ofNat n) else none

/-- The character that a letter after a backslash stands for. -/
def escaped? : Char → Option Char
  | 'b' => some '\x08'
  | 't' => some '\t'
  | 'n' => some '\n'
  | 'f' => some '\x0c'
  | 'r' => some '\r'
  | '"' => some '"'
  | '\\' => some '\\'
  | _ => none

/-- Put a character before the text that a reader answers. -/
def cons? (c : Option Char) (rest : Option (List Char × List Char)) :
    Option (List Char × List Char) := do
  let (cs, rest) ← rest
  some ((← c) :: cs, rest)

/-- The rest of a text after a double quote. -/
def basicText : List Char → Option (List Char × List Char)
  | [] => none
  | '"' :: cs => some ([], cs)
  | '\\' :: 'u' :: a :: b :: c :: d :: cs => cons? (charOfHex? [a, b, c, d]) (basicText cs)
  | '\\' :: 'U' :: a :: b :: c :: d :: e :: f :: g :: h :: cs =>
    cons? (charOfHex? [a, b, c, d, e, f, g, h]) (basicText cs)
  | '\\' :: c :: cs => cons? (escaped? c) (basicText cs)
  | c :: cs => if isPlainChar c && c != '\\' then cons? (some c) (basicText cs) else none

def literalText : List Char → Option (List Char × List Char)
  | [] => none
  | c :: cs =>
    if c = '\'' then some ([], cs)
    else if isPlainChar c then cons? (some c) (literalText cs)
    else none

/-- Whether a line ends after blanks. -/
def endsLine (cs : List Char) : Bool :=
  (lineEnd? (skipBlanks cs)).isSome

/-- The rest of a text after three double quotes. `skipping` says that blanks and ends of lines are
left out, because a backslash stood at the end of a line. -/
def multilineText (skipping : Bool) : List Char → Option (List Char × List Char)
  | [] => none
  | '"' :: '"' :: '"' :: '"' :: '"' :: cs => some (['"', '"'], cs)
  | '"' :: '"' :: '"' :: '"' :: cs => some (['"'], cs)
  | '"' :: '"' :: '"' :: cs => some ([], cs)
  | '\\' :: 'u' :: a :: b :: c :: d :: cs =>
    cons? (charOfHex? [a, b, c, d]) (multilineText false cs)
  | '\\' :: 'U' :: a :: b :: c :: d :: e :: f :: g :: h :: cs =>
    cons? (charOfHex? [a, b, c, d, e, f, g, h]) (multilineText false cs)
  | '\r' :: '\n' :: cs =>
    if skipping then multilineText true cs else cons? (some '\n') (multilineText false cs)
  | c :: cs =>
    if c = '\\' then
      if endsLine cs then multilineText true cs
      else
        match cs with
        | [] => none
        | d :: cs => cons? (escaped? d) (multilineText false cs)
    else if skipping && (isBlankChar c || c == '\n') then multilineText true cs
    else if isPlainChar c || c == '\n' then cons? (some c) (multilineText false cs)
    else none

def multilineLiteral : List Char → Option (List Char × List Char)
  | [] => none
  | '\'' :: '\'' :: '\'' :: '\'' :: '\'' :: cs => some (['\'', '\''], cs)
  | '\'' :: '\'' :: '\'' :: '\'' :: cs => some (['\''], cs)
  | '\'' :: '\'' :: '\'' :: cs => some ([], cs)
  | '\r' :: '\n' :: cs => cons? (some '\n') (multilineLiteral cs)
  | c :: cs =>
    if isPlainChar c || c == '\n' then cons? (some c) (multilineLiteral cs) else none

/-- A text without the end of line that it starts with. -/
def dropFirstLineEnd (cs : List Char) : List Char :=
  (lineEnd? cs).getD cs

/-- A text between quotes of any kind. -/
def readText : List Char → Option (List Char × List Char)
  | '"' :: '"' :: '"' :: cs => multilineText false (dropFirstLineEnd cs)
  | '"' :: cs => basicText cs
  | '\'' :: '\'' :: '\'' :: cs => multilineLiteral (dropFirstLineEnd cs)
  | '\'' :: cs => literalText cs
  | _ => none

/-! ### Keys -/

def readKeyPart : List Char → Option (String × List Char)
  | '"' :: cs => do
    let (key, cs) ← basicText cs
    some (String.ofList key, cs)
  | '\'' :: cs => do
    let (key, cs) ← literalText cs
    some (String.ofList key, cs)
  | cs =>
    let key := cs.takeWhile isKeyChar
    if key.isEmpty then none else some (String.ofList key, cs.dropWhile isKeyChar)

/-- A key: parts with points between them, and blanks around them. -/
def readKeyParts : Nat → List Char → Option (List String × List Char)
  | 0, _ => none
  | fuel + 1, cs => do
    let (part, cs) ← readKeyPart (skipBlanks cs)
    match skipBlanks cs with
    | '.' :: cs =>
      let (parts, cs) ← readKeyParts fuel cs
      some (part :: parts, cs)
    | cs => some ([part], cs)

/-- The first number of nested parts or levels that is refused. -/
def nestingLimit : Nat := 80

/-- A key of fewer parts than the limit. -/
def readKey (cs : List Char) : Option (List String × List Char) := do
  let (parts, cs) ← readKeyParts (cs.length + 1) cs
  if parts.length < nestingLimit then some (parts, cs) else none

/-! ### Values -/

def isTokenChar (c : Char) : Bool :=
  c.isAlphanum || c == '_' || c == '-' || c == '+' || c == '.' || c == ':'

/-- A token. A date may be followed by a blank and a time. -/
def readToken (cs : List Char) : List Char × List Char :=
  let token := cs.takeWhile isTokenChar
  match date? token, cs.dropWhile isTokenChar with
  | some (_, []), ' ' :: rest =>
    let time := rest.takeWhile isTokenChar
    if (time? time).isSome then (token ++ ' ' :: time, rest.dropWhile isTokenChar)
    else (token, ' ' :: rest)
  | _, rest => (token, rest)

def tokenValue? (token : List Char) : Option Toml :=
  if token = "true".toList then some (.boolean true)
  else if token = "false".toList then some (.boolean false)
  else ((integer? token).map .integer).or
    (((float? token).map .float).or ((datetime? token).map .datetime))

/-- A table that dotted keys build up inside an inline table. -/
inductive Inline where
  | value (v : Toml)
  | table (entries : List (String × Inline))
deriving Inhabited

/-- Put a value under a dotted key of an inline table. A key is set once, and only a table made by
dotted keys can be extended. -/
def insertInline (v : Toml) : List String → List (String × Inline) →
    Option (List (String × Inline))
  | [], _ => none
  | [key], entries =>
    if (entries.lookup key).isSome then none else some (entries ++ [(key, .value v)])
  | key :: rest, entries =>
    match entries.lookup key with
    | none => do
      let inner ← insertInline v rest []
      some (entries ++ [(key, .table inner)])
    | some (.table inner) => do
      let inner ← insertInline v rest inner
      some (entries.map fun e => if e.1 == key then (key, .table inner) else e)
    | some (.value _) => none

def Inline.toToml : Inline → Toml
  | .value v => v
  | .table entries => .table (entries.map fun e => (e.1, toToml e.2))
decreasing_by
  rename_i h
  have := List.sizeOf_lt_of_mem h
  cases e
  simp only [Inline.table.sizeOf_spec, Prod.mk.sizeOf_spec] at *
  omega

mutual

def readValue : Nat → Nat → List Char → Option (Toml × List Char)
  | 0, _, _ => none
  | fuel + 1, depth, cs =>
    match cs with
    | '[' :: cs =>
      match depth with
      | 0 => none
      | depth + 1 => do
        let (items, cs) ← readItems fuel depth cs
        some (.array items, cs)
    | '{' :: cs =>
      match depth with
      | 0 => none
      | depth + 1 => do
        match skipBlanks cs with
        | '}' :: cs => some (.table [], cs)
        | cs =>
          let (entries, cs) ← readEntries fuel depth [] cs
          some ((Inline.table entries).toToml, cs)
    | _ =>
      match readText cs with
      | some (text, cs) => some (.string (String.ofList text), cs)
      | none => do
        let (token, cs) := readToken cs
        some (← tokenValue? token, cs)

/-- The items of an array, up to its closing bracket. -/
def readItems : Nat → Nat → List Char → Option (List Toml × List Char)
  | 0, _, _ => none
  | fuel + 1, depth, cs => do
    match ← skipLines (cs.length + 1) cs with
    | ']' :: cs => some ([], cs)
    | cs =>
      let (item, cs) ← readValue fuel depth cs
      match ← skipLines (cs.length + 1) cs with
      | ']' :: cs => some ([item], cs)
      | ',' :: cs =>
        let (items, cs) ← readItems fuel depth cs
        some (item :: items, cs)
      | _ => none

/-- The entries of an inline table, up to its closing brace. -/
def readEntries : Nat → Nat → List (String × Inline) → List Char →
    Option (List (String × Inline) × List Char)
  | 0, _, _, _ => none
  | fuel + 1, depth, entries, cs => do
    let (key, cs) ← readKey cs
    let (value, cs) ← readValue fuel depth (skipBlanks (← after? '=' cs))
    let entries ← insertInline value key entries
    match skipBlanks cs with
    | '}' :: cs => some (entries, cs)
    | ',' :: cs => readEntries fuel depth entries cs
    | _ => none

end

def value? (cs : List Char) : Option (Toml × List Char) :=
  readValue (cs.length + 1) (nestingLimit - 1) cs

end Dynval.Toml
