import Dynval.Store.Basic

/-!
# Deep copies

A deep copy follows the lists and maps below a value and gives each of them one copy, so that
sharing and cycles among them are kept. The copy of a list or map is noted as soon as it is met,
still empty, and filled when the copies of what it holds are there. A byte array is copied anew at
each place where it is held.
-/

namespace Dynval

/-- The list or map that a value refers to. -/
def Value.node? : Value → Option Ref
  | .list r | .map r => some r
  | _ => none

/-- The value of the same kind that refers to another container. -/
def Value.withRef (r : Ref) : Value → Value
  | .list _ => .list r
  | .map _ => .map r
  | .byteArray _ => .byteArray r
  | v => v

/-- The contents of a container with other values in the places of those it holds. -/
def Cell.withChildren (children : List Value) : Cell → Cell
  | .list _ => .list children
  | .map entries => .map (entries.keys.zip children)
  | .byteArray data => .byteArray data

/-- A copy under way: the store so far, and the copies of the lists and maps met so far. -/
structure Copying where
  store : Store
  memo : List (Ref × Ref)

namespace Copying

def met (c : Copying) : List Ref :=
  c.memo.map Prod.fst

/-- The address of the next copy. -/
def next (c : Copying) : Ref :=
  ⟨c.store.size⟩

/-- Note a list or map, with an empty copy. -/
def enter (c : Copying) (r : Ref) (cell : Cell) : Copying :=
  ⟨(c.store.alloc (cell.withChildren [])).2, (r, c.next) :: c.memo⟩

def fill (c : Copying) (copy : Ref) (cell : Cell) : Copying :=
  { c with store := c.store.put copy cell }

/-- The copy of a value that is no list or map, with the contents of byte arrays from `s`. -/
def leaf (s : Store) (c : Copying) : Value → Value × Copying
  | .byteArray r =>
    (.byteArray c.next, { c with store := (c.store.alloc (.byteArray (s.data r))).2 })
  | v => (v, c)

/-- An answer and the copy after it, which has met everything that was met before. -/
abbrev Answer (c : Copying) (α : Type) : Type :=
  { out : α × Copying // c.met ⊆ out.2.met }

theorem met_leaf (s : Store) (c : Copying) (v : Value) : (c.leaf s v).2.met = c.met := by
  cases v <;> rfl

end Copying

namespace Store

/-- The contents of a container; nothing is at an address that holds none. -/
def contents (s : Store) (r : Ref) : Cell :=
  (s.cell? r).getD (.list [])

theorem contents_children_of_not_mem {s : Store} {r : Ref} (h : r ∉ s.refs) :
    (s.contents r).children = [] := by
  unfold contents
  cases hc : s.cell? r with
  | none => rfl
  | some c => exact absurd (mem_refs_of_cell? hc) h

mutual

/-- The copy of a value of `s`. What is met again gets the copy that it has. -/
def copyValue (s : Store) (c : Copying) (v : Value) : c.Answer Value :=
  match v.node? with
  | none => ⟨c.leaf s v, fun _ h => Copying.met_leaf s c v ▸ h⟩
  | some r =>
    match _ : c.memo.lookup r with
    | some copy => ⟨(v.withRef copy, c), fun _ h => h⟩
    | none =>
      let children := copyValues s (c.enter r (s.contents r)) (s.contents r).children
      ⟨(v.withRef c.next,
          children.1.2.fill c.next ((s.contents r).withChildren children.1.1)),
        fun _ h => children.2 (List.mem_cons_of_mem r h)⟩
termination_by (unseen s.refs c.met, 1)
decreasing_by
  rename_i hr
  have hnew : r ∉ c.met := by
    intro h
    obtain ⟨p, hp, rfl⟩ := List.mem_map.1 h
    simpa using List.lookup_eq_none_iff.1 hr p hp
  by_cases hmem : r ∈ s.refs
  · exact Prod.Lex.left _ _ (unseen_cons_lt hmem hnew)
  · rw [contents_children_of_not_mem hmem]
    apply Prod.Lex.right'
    · exact unseen_le_of_subset _ (List.subset_cons_self r c.met)
    · simp

def copyValues (s : Store) (c : Copying) (vs : List Value) : c.Answer (List Value) :=
  match vs with
  | [] => ⟨([], c), fun _ h => h⟩
  | v :: rest =>
    let first := copyValue s c v
    let others := copyValues s first.1.2 rest
    ⟨(first.1.1 :: others.1.1, others.1.2), fun _ h => others.2 (first.2 h)⟩
termination_by (unseen s.refs c.met, 2 * vs.length)
decreasing_by
  · exact Prod.Lex.right _ (by rw [List.length_cons]; omega)
  · apply Prod.Lex.right'
    · exact unseen_le_of_subset _ first.2
    · rw [List.length_cons]
      omega

end

/-- A copy of a value that shares no container with it. -/
def deepCopy (s : Store) (v : Value) : Value × Store :=
  let out := (s.copyValue ⟨s, []⟩ v).1
  (out.1, out.2.store)

end Store

end Dynval
