import Dynval.Container
import Dynval.Proofs.Action.Basic
import Dynval.Proofs.Subscript.Position
import Dynval.Proofs.Text.Scalars
import Dynval.Sequence.Items

/-!
# The elements of sequences

Lists, texts, byte arrays and byte strings are sequences (`Value.IsSequence`). Iterating one,
asking for its length and reading it by subscript are written apart for each kind, a text even
twice; all of them are about the same elements.
-/

namespace Dynval

namespace Value

/-- Whether a value is a sequence of a store, and has the given elements: the elements of a list,
the characters of a text, the bytes of a byte array or of a byte string. -/
inductive IsSequence (s : Store) : Value → List Value → Prop
  | list {r : Ref} {items : List Value} (h : s.cell? r = some (.list items)) :
    IsSequence s (.list r) items
  | str (t : String) : IsSequence s (.str t) (t.toList.map ofChar)
  | byteArray {r : Ref} {data : List UInt8} (h : s.cell? r = some (.byteArray data)) :
    IsSequence s (.byteArray r) (data.map ofByte)
  | bytes (data : List UInt8) : IsSequence s (.bytes data) (data.map ofByte)

namespace IsSequence

variable {s t : Store} {v : Value} {vs : List Value}

lemma items? (h : v.IsSequence s vs) : v.items? s = some vs := by
  cases h with
  | list hcell => rw [Value.items?, Store.items_of_cell? hcell]
  | byteArray hcell => rw [Value.items?, Store.data_of_cell? hcell]
  | str | bytes => rfl

lemma sequenceLength? (h : v.IsSequence s vs) : v.sequenceLength? s = some vs.length := by
  cases h with
  | list hcell => rw [Value.sequenceLength?, Store.items_of_cell? hcell]
  | str t => rw [Value.sequenceLength?, Text.length_eq, List.length_map]
  | byteArray hcell => rw [Value.sequenceLength?, Store.data_of_cell? hcell, List.length_map]
  | bytes data => rw [Value.sequenceLength?, List.length_map]

/-- The length of a sequence is the number of its elements. -/
lemma length (h : v.IsSequence s vs) : v.length s = .ok vs.length := by
  have hlength := h.sequenceLength?
  cases h <;> simp_all [Value.length]

/-- A subscript denotes the element at its position. -/
lemma element? (h : v.IsSequence s vs) (index : Int64) :
    v.element? s index = (position? index vs.length).bind fun p => vs[p]? := by
  cases h with
  | list hcell => simp [Value.element?, Store.items_of_cell? hcell]
  | str t =>
    simp only [Value.element?, Text.length_eq, Text.get?_eq, List.length_map, List.getElem?_map,
      Option.map_eq_bind]
    rfl
  | byteArray hcell =>
    simp only [Value.element?, Store.data_of_cell? hcell, List.length_map, List.getElem?_map,
      Option.map_eq_bind]
    rfl
  | bytes data =>
    simp only [Value.element?, List.length_map, List.getElem?_map, Option.map_eq_bind]
    rfl

lemma element?_of_position? {index : Int64} {p : Nat} {w : Value} (h : v.IsSequence s vs)
    (hp : position? index vs.length = some p) (hw : vs[p]? = some w) :
    v.element? s index = some w := by
  rw [h.element?, hp, Option.bind_some, hw]

/-- A sequence has the same elements in every later store. -/
lemma later (h : v.IsSequence s vs) (hst : s.Extends t) : v.IsSequence t vs := by
  cases h with
  | list hcell => exact .list ((hst.cell? _ (Store.index_lt_of_cell? hcell)).trans hcell)
  | str t => exact .str t
  | byteArray hcell => exact .byteArray ((hst.cell? _ (Store.index_lt_of_cell? hcell)).trans hcell)
  | bytes data => exact .bytes data

end IsSequence

end Value

end Dynval
