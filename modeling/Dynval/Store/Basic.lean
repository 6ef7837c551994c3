import Dynval.Value.Key

/-!
# Stores

A store holds the contents of all containers, addressed by references. Containers are only added
and changed, never removed, and a container keeps its kind.
-/

namespace Dynval

/-- The contents of a container. -/
inductive Cell where
  | list (items : List Value)
  | map (entries : Entries Value)
  | byteArray (data : List UInt8)
deriving DecidableEq, Inhabited

/-- The values held directly in a container. -/
def Cell.children : Cell → List Value
  | .list items => items
  | .map entries => entries.map Prod.snd
  | .byteArray _ => []

/-- The contents of all containers. -/
structure Store where
  cells : Array Cell
deriving DecidableEq, Inhabited

namespace Store

def empty : Store := ⟨#[]⟩

def size (s : Store) : Nat := s.cells.size

/-- The contents of a container. -/
def cell? (s : Store) (r : Ref) : Option Cell := s.cells[r.index]?

def items (s : Store) (r : Ref) : List Value :=
  match s.cell? r with
  | some (.list items) => items
  | _ => []

def entries (s : Store) (r : Ref) : Entries Value :=
  match s.cell? r with
  | some (.map entries) => entries
  | _ => []

def data (s : Store) (r : Ref) : List UInt8 :=
  match s.cell? r with
  | some (.byteArray data) => data
  | _ => []

def alloc (s : Store) (c : Cell) : Ref × Store :=
  (⟨s.size⟩, ⟨s.cells.push c⟩)

/-- Replace the contents of a container. -/
def put (s : Store) (r : Ref) (c : Cell) : Store :=
  ⟨s.cells.setIfInBounds r.index c⟩

def setItems (s : Store) (r : Ref) (items : List Value) : Store :=
  match s.cell? r with
  | some (.list _) => s.put r (.list items)
  | _ => s

def setEntries (s : Store) (r : Ref) (entries : Entries Value) : Store :=
  match s.cell? r with
  | some (.map _) => s.put r (.map entries)
  | _ => s

def setData (s : Store) (r : Ref) (data : List UInt8) : Store :=
  match s.cell? r with
  | some (.byteArray _) => s.put r (.byteArray data)
  | _ => s

def refs (s : Store) : List Ref :=
  (List.range s.size).map Ref.mk

theorem index_lt_of_cell? {s : Store} {r : Ref} {c : Cell} (h : s.cell? r = some c) :
    r.index < s.size := by
  simp only [cell?, Array.getElem?_eq_some_iff] at h
  exact h.1

theorem mem_refs_of_cell? {s : Store} {r : Ref} {c : Cell} (h : s.cell? r = some c) :
    r ∈ s.refs := by
  simp only [refs, List.mem_map, List.mem_range]
  exact ⟨r.index, index_lt_of_cell? h, rfl⟩

theorem mem_refs_of_mem_items {s : Store} {r : Ref} {v : Value} (h : v ∈ s.items r) :
    r ∈ s.refs := by
  unfold items at h
  split at h
  · exact mem_refs_of_cell? ‹_›
  · simp at h

theorem mem_refs_of_mem_entries {s : Store} {r : Ref} {e : Key × Value} (h : e ∈ s.entries r) :
    r ∈ s.refs := by
  unfold entries at h
  split at h
  · exact mem_refs_of_cell? ‹_›
  · simp at h

theorem items_of_not_mem_refs {s : Store} {r : Ref} (h : r ∉ s.refs) : s.items r = [] :=
  List.eq_nil_iff_forall_not_mem.2 fun _ hv => h (mem_refs_of_mem_items hv)

theorem entries_of_not_mem_refs {s : Store} {r : Ref} (h : r ∉ s.refs) : s.entries r = [] :=
  List.eq_nil_iff_forall_not_mem.2 fun _ he => h (mem_refs_of_mem_entries he)

end Store

/-- The bytes of a byte string or byte array. -/
def Value.byteData? (s : Store) : Value → Option (List UInt8)
  | .bytes data => some data
  | .byteArray r => some (s.data r)
  | _ => none

/-! ### Counting what is not yet seen -/

/-- How many members of `all` are not in `seen`. Traversals that never visit a member twice go
down by this number. -/
def unseen {α : Type} [DecidableEq α] (all seen : List α) : Nat :=
  all.countP (fun a => decide (a ∉ seen))

theorem unseen_cons {α : Type} [DecidableEq α] (a : α) (all seen : List α) :
    unseen (a :: all) seen = unseen all seen + if a ∈ seen then 0 else 1 := by
  by_cases h : a ∈ seen <;> simp [unseen, h]

theorem unseen_le_of_subset {α : Type} [DecidableEq α] (all : List α) {seen seen' : List α}
    (h : seen ⊆ seen') : unseen all seen' ≤ unseen all seen :=
  List.countP_mono_left fun x _ hx => by
    simp only [decide_eq_true_eq] at hx ⊢
    exact fun hmem => hx (h hmem)

theorem unseen_cons_lt {α : Type} [DecidableEq α] {all seen : List α} {a : α}
    (hall : a ∈ all) (hseen : a ∉ seen) : unseen all (a :: seen) < unseen all seen := by
  induction all with
  | nil => simp at hall
  | cons b all ih =>
    have hmono := unseen_le_of_subset all (List.subset_cons_self a seen)
    rw [unseen_cons, unseen_cons]
    by_cases hb : b = a
    · simp only [hb, List.mem_cons_self, if_true, hseen, if_false]
      omega
    · have hlt := ih ((List.mem_cons.1 hall).resolve_left fun h => hb h.symm)
      simp only [List.mem_cons, hb, false_or]
      omega

end Dynval
