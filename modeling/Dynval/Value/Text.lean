import Dynval.Decimal.Text
import Dynval.Store.Basic

/-!
# The text of values

`Value.repr` writes a value so that it can be told from every other value; `Value.display` writes
a text as it is and everything else in the same way. A `Renderer` writes into one text and keeps
track of the lists and maps that it is inside of; one that is met inside itself is not written
again.

A text is quoted between two marks. The mark is `'`, or `"` when only the other one occurs inside.
The backslash, the mark, line feed, carriage return and tab are escaped by a letter, characters that
are not plain by two hexadecimal digits.
-/

namespace Dynval

namespace Text

/-- The two lower-case hexadecimal digits of a number below 256. -/
def hexPair (n : Nat) : List Char :=
  [Nat.digitChar (n / 16 % 16), Nat.digitChar (n % 16)]

/-- The mark that a text is put between. -/
def quoteMark (cs : List Char) : Char :=
  if cs.contains '\'' && !cs.contains '"' then '"' else '\''

/-- How a character is written between marks. -/
def escape (isPlain : Char → Bool) (mark c : Char) : List Char :=
  if c = '\\' then ['\\', '\\']
  else if c = '\n' then ['\\', 'n']
  else if c = '\r' then ['\\', 'r']
  else if c = '\t' then ['\\', 't']
  else if c = mark then ['\\', c]
  else if isPlain c then [c]
  else '\\' :: 'x' :: hexPair c.toNat

/-- A text between marks. -/
def quote (isPlain : Char → Bool) (cs : List Char) : List Char :=
  let mark := quoteMark cs
  mark :: cs.flatMap (escape isPlain mark) ++ [mark]

def isControl (c : Char) : Bool :=
  decide (c.toNat < 0x20) || decide (0x7f ≤ c.toNat ∧ c.toNat < 0xa0)

def isPrintable (c : Char) : Bool :=
  decide (0x20 ≤ c.toNat ∧ c.toNat < 0x7f)

/-- A text, quoted; every character that is no control character stands for itself. -/
def quoteText (s : String) : List Char :=
  quote (fun c => !isControl c) s.toList

/-- A byte string, quoted after a `b`; only printable ASCII characters stand for themselves. -/
def quoteBytes (bytes : List UInt8) : List Char :=
  'b' :: quote isPrintable (bytes.map fun b => Char.ofNat b.toNat)

end Text

/-! ### Renderers -/

/-- A text under way, and the lists and maps that are being written, the innermost first. -/
structure Renderer where
  out : String := ""
  active : List Ref := []
deriving Inhabited

namespace Renderer

/-- The renderer after something was written, inside the same lists and maps as before. -/
abbrev Answer (r : Renderer) : Type :=
  { after : Renderer // after.active = r.active }

def put (r : Renderer) (cs : List Char) : Renderer :=
  { r with out := r.out ++ String.ofList cs }

def push (r : Renderer) (ref : Ref) : Renderer :=
  { r with active := ref :: r.active }

def pop (r : Renderer) : Renderer :=
  { r with active := r.active.tail }

/-- A comma before every item but the first. -/
def comma (r : Renderer) (i : Nat) : Renderer :=
  if 0 < i then r.put [',', ' '] else r

theorem active_comma (r : Renderer) (i : Nat) : (r.comma i).active = r.active := by
  unfold comma
  split <;> rfl

variable [FloatPrinter]

mutual

/-- Write a value. What stands inside it is always quoted. -/
def value (s : Store) (quoted : Bool) (v : Value) (r : Renderer) : r.Answer :=
  match v with
  | .nil => ⟨r.put "None".toList, rfl⟩
  | .bool b => ⟨r.put (if b then "True".toList else "False".toList), rfl⟩
  | .int i => ⟨r.put (intChars i.toInt), rfl⟩
  | .float x => ⟨r.put x.textChars, rfl⟩
  | .str t => ⟨r.put (if quoted then Text.quoteText t else t.toList), rfl⟩
  | .bytes data => ⟨r.put (Text.quoteBytes data), rfl⟩
  | .byteArray ref =>
    ⟨((r.put "bytearray(".toList).put (Text.quoteBytes (s.data ref))).put [')'], rfl⟩
  | .list ref =>
    if _ : ref ∈ r.active then ⟨r.put "[...]".toList, rfl⟩
    else
      let inside := items s 0 (s.items ref) ((r.push ref).put ['['])
      ⟨(inside.1.put [']']).pop, congrArg List.tail inside.2⟩
  | .map ref =>
    if _ : ref ∈ r.active then ⟨r.put ['{', '.', '.', '.', '}'], rfl⟩
    else
      let inside := entries s 0 (s.entries ref) ((r.push ref).put ['{'])
      ⟨(inside.1.put ['}']).pop, congrArg List.tail inside.2⟩
termination_by (unseen s.refs r.active, 1)
decreasing_by
  · by_cases hmem : ref ∈ s.refs
    · exact Prod.Lex.left _ _ (unseen_cons_lt hmem ‹_›)
    · rw [Store.items_of_not_mem_refs hmem]
      apply Prod.Lex.right'
      · exact unseen_le_of_subset _ (List.subset_cons_self ref r.active)
      · simp
  · by_cases hmem : ref ∈ s.refs
    · exact Prod.Lex.left _ _ (unseen_cons_lt hmem ‹_›)
    · rw [Store.entries_of_not_mem_refs hmem]
      apply Prod.Lex.right'
      · exact unseen_le_of_subset _ (List.subset_cons_self ref r.active)
      · simp

/-- Write the items of a list from the one at position `i` on. -/
def items (s : Store) (i : Nat) (vs : List Value) (r : Renderer) : r.Answer :=
  match vs with
  | [] => ⟨r, rfl⟩
  | v :: rest =>
    let first := value s true v (r.comma i)
    let others := items s (i + 1) rest first.1
    ⟨others.1, others.2.trans (first.2.trans (r.active_comma i))⟩
termination_by (unseen s.refs r.active, 2 * vs.length)
decreasing_by
  · rw [active_comma]
    exact Prod.Lex.right _ (by rw [List.length_cons]; omega)
  · rw [first.2, active_comma]
    exact Prod.Lex.right _ (by rw [List.length_cons]; omega)

/-- Write the entries of a map from the one at position `i` on. -/
def entries (s : Store) (i : Nat) (es : Entries Value) (r : Renderer) : r.Answer :=
  match es with
  | [] => ⟨r, rfl⟩
  | (k, v) :: rest =>
    let key := value s true k.toValue (r.comma i)
    let first := value s true v (key.1.put [':', ' '])
    let others := entries s (i + 1) rest first.1
    ⟨others.1, others.2.trans (first.2.trans (key.2.trans (r.active_comma i)))⟩
termination_by (unseen s.refs r.active, 2 * es.length)
decreasing_by
  · rw [active_comma]
    exact Prod.Lex.right _ (by rw [List.length_cons]; omega)
  · rw [show (key.1.put [':', ' ']).active = r.active from key.2.trans (r.active_comma i)]
    exact Prod.Lex.right _ (by rw [List.length_cons]; omega)
  · rw [show first.1.active = r.active from first.2.trans (key.2.trans (r.active_comma i))]
    exact Prod.Lex.right _ (by rw [List.length_cons]; omega)

end

end Renderer

namespace Value

variable [FloatPrinter]

/-- The text of a value that tells it from every other value. -/
def repr (s : Store) (v : Value) : String :=
  (Renderer.value s true v {}).1.out

/-- The text of a value for reading: a text stands for itself. -/
def display (s : Store) : Value → String
  | .str t => t
  | v => (Renderer.value s false v {}).1.out

/-- The text that a value converts to: nothing for nil. -/
def toText (s : Store) : Value → String
  | .nil => ""
  | v => v.display s

end Value

end Dynval
