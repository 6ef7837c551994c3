import Dynval.Number.Basic
import Dynval.Store.Basic

/-!
# Identity and equality

Containers are identical when they are one container, scalars when they have one kind and payload.
Elements of containers count as equal when they are identical or equal, so that a list that holds a
NaN equals itself.
-/

namespace Dynval

def Store.refPairs (s : Store) : List (Ref × Ref) :=
  s.refs.flatMap fun a => s.refs.map fun b => (a, b)

theorem Store.mem_refPairs {s : Store} {a b : Ref} (ha : a ∈ s.refs) (hb : b ∈ s.refs) :
    (a, b) ∈ s.refPairs := by
  simp [refPairs, ha, hb]

/-- All pairs of lists and all pairs of maps of a store. -/
def Store.containerPairs (s : Store) : List (Value × Value) :=
  (s.refPairs.map fun p => (.list p.1, .list p.2)) ++ s.refPairs.map fun p => (.map p.1, .map p.2)

theorem Store.list_mem_containerPairs {s : Store} {a b : Ref} (h : (a, b) ∈ s.refPairs) :
    (.list a, .list b) ∈ s.containerPairs := by
  simp [containerPairs, h]

theorem Store.map_mem_containerPairs {s : Store} {a b : Ref} (h : (a, b) ∈ s.refPairs) :
    (.map a, .map b) ∈ s.containerPairs := by
  simp [containerPairs, h]

namespace Value

/-- Whether two values are identical. -/
def sameObject : Value → Value → Bool
  | .nil, .nil => true
  | .bool a, .bool b => a == b
  | .int i, .int j => i == j
  | .float x, .float y => x == y
  | .str s, .str t => s == t
  | .bytes a, .bytes b => a == b
  | .list a, .list b => a == b
  | .map a, .map b => a == b
  | .byteArray a, .byteArray b => a == b
  | _, _ => false

/-- Equality of values that are neither two lists nor two maps. -/
def equalsFlat (s : Store) : Value → Value → Bool
  | .nil, .nil => true
  | .str a, .str b => a == b
  | a, b =>
    match a.byteData? s, b.byteData? s with
    | some x, some y => x == y
    | _, _ =>
      match a.number?, b.number? with
      | some x, some y => x.compare? y == some .eq
      | _, _ => false

/-- Equality of values below pairs of containers that are being compared. Following the contents of
a pair that is met again inside itself would never return, and no answer is right there; such a
pair counts as different, so that this function is total. It is the one place where it decides more
than the contents do. -/
def equalsBelow (s : Store) (path : List (Value × Value)) : Value → Value → Bool
  | .list a, .list b =>
    a == b || if _ : (.list a, .list b) ∈ path then false
    else
      let xs := s.items a
      let ys := s.items b
      xs.length == ys.length && (xs.zip ys).attach.all fun ⟨p, _⟩ =>
        p.1.sameObject p.2 || equalsBelow s ((.list a, .list b) :: path) p.1 p.2
  | .map a, .map b =>
    a == b || if _ : (.map a, .map b) ∈ path then false
    else
      let xs := s.entries a
      let ys := s.entries b
      xs.length == ys.length && (xs.zip ys).attach.all fun ⟨p, _⟩ =>
        p.1.1 == p.2.1 &&
          (p.1.2.sameObject p.2.2 || equalsBelow s ((.map a, .map b) :: path) p.1.2 p.2.2)
  | a, b => a.equalsFlat s b
termination_by unseen s.containerPairs path
decreasing_by
  · rename_i h
    have hp := List.of_mem_zip h
    exact unseen_cons_lt (Store.list_mem_containerPairs (Store.mem_refPairs
      (Store.mem_refs_of_mem_items hp.1) (Store.mem_refs_of_mem_items hp.2))) ‹_›
  · rename_i h
    have hp := List.of_mem_zip h
    exact unseen_cons_lt (Store.map_mem_containerPairs (Store.mem_refPairs
      (Store.mem_refs_of_mem_entries hp.1) (Store.mem_refs_of_mem_entries hp.2))) ‹_›

def equals (s : Store) (a b : Value) : Bool :=
  a.equalsBelow s [] b

/-- Equality as containers see it: identical or equal. -/
def isOrEquals (s : Store) (a b : Value) : Bool :=
  a.sameObject b || a.equals s b

end Value

end Dynval
