import Mathlib.Tactic.Lemma
import Dynval.Store.Basic

/-!
# Contents of stores

How allocating a container and replacing its contents change what is read at each address.
-/

namespace Dynval

namespace Store

variable {s : Store} {r q : Ref} {c : Cell}

/-! ### Allocating -/

@[simp] lemma size_alloc (s : Store) (c : Cell) : (s.alloc c).2.size = s.size + 1 := by
  simp [alloc, size]

lemma cell?_alloc_self (s : Store) (c : Cell) : (s.alloc c).2.cell? ⟨s.size⟩ = some c := by
  simp [alloc, cell?, size]

/-- Adding a container leaves the old ones as they are. -/
lemma cell?_alloc_of_lt (c : Cell) (h : r.index < s.size) :
    (s.alloc c).2.cell? r = s.cell? r := by
  simp only [alloc, cell?, size] at h ⊢
  exact Array.getElem?_push_lt h |>.trans (Array.getElem?_eq_getElem h).symm

/-! ### Contents of one kind -/

lemma items_of_cell? {items : List Value} (h : s.cell? r = some (.list items)) :
    s.items r = items := by
  rw [Store.items, h]

lemma items_alloc_self (s : Store) (items : List Value) :
    (s.alloc (.list items)).2.items ⟨s.size⟩ = items :=
  items_of_cell? (cell?_alloc_self s _)

lemma entries_of_cell? {es : Entries Value} (h : s.cell? r = some (.map es)) :
    s.entries r = es := by
  rw [Store.entries, h]

lemma data_of_cell? {data : List UInt8} (h : s.cell? r = some (.byteArray data)) :
    s.data r = data := by
  rw [Store.data, h]

/-! ### Replacing contents -/

@[simp] lemma size_put (s : Store) (r : Ref) (c : Cell) : (s.put r c).size = s.size := by
  simp [put, size]

lemma cell?_put_self (c : Cell) (h : r.index < s.size) : (s.put r c).cell? r = some c := by
  simp only [put, cell?, size] at h ⊢
  exact Array.getElem?_setIfInBounds_self_of_lt h

/-- Replacing the contents of a container leaves the others as they are. -/
lemma cell?_put_of_ne (c : Cell) (h : q ≠ r) : (s.put r c).cell? q = s.cell? q := by
  have hne : r.index ≠ q.index := fun heq => h (by cases q; cases r; simp_all)
  simp only [put, cell?]
  exact Array.getElem?_setIfInBounds_ne hne

/-- Contents replaced by themselves. -/
lemma put_self (h : s.cell? r = some c) : s.put r c = s := by
  obtain ⟨hlt, rfl⟩ := Array.getElem?_eq_some_iff.1 h
  simp [put, Array.setIfInBounds, hlt]

/-! ### Replacing elements, entries and bytes

Each of these replaces the contents of a container of its kind, and does nothing to another one. -/

/-- Setting the elements of what is no list does nothing. -/
lemma setItems_cases (s : Store) (r : Ref) (items : List Value) :
    s.setItems r items = s ∨
      s.cell? r = some (.list (s.items r)) ∧ s.setItems r items = s.put r (.list items) := by
  unfold setItems Store.items
  split <;> simp [*]

lemma setEntries_cases (s : Store) (r : Ref) (entries : Entries Value) :
    s.setEntries r entries = s ∨
      s.cell? r = some (.map (s.entries r)) ∧ s.setEntries r entries = s.put r (.map entries) := by
  unfold setEntries Store.entries
  split <;> simp [*]

lemma setData_cases (s : Store) (r : Ref) (data : List UInt8) :
    s.setData r data = s ∨
      s.cell? r = some (.byteArray (s.data r)) ∧ s.setData r data = s.put r (.byteArray data) := by
  unfold setData Store.data
  split <;> simp [*]

end Store

end Dynval
