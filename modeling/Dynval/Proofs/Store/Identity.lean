import Dynval.Proofs.Binary64.Text
import Dynval.Proofs.Store.Paths

/-!
# Identity of structure

Two values, each in a store of its own, are identical in structure when every path leads to the
same label from both, where the bits of a NaN do not count. `Store.identical_iff` says this of a
value and what is one step below it.
-/

namespace Dynval

def Key.mergeNaN : Key → Key
  | .float x => .float x.mergeNaN
  | k => k

namespace Label

def mergeNaN : Label → Label
  | .scalar (.float x) => .scalar (.float x.mergeNaN)
  | .map keys => .map (keys.map Key.mergeNaN)
  | l => l

/-- How many values are one step below a value with the label. -/
def arity : Label → Nat
  | .list length => length
  | .map keys => keys.length
  | _ => 0

lemma arity_mergeNaN (l : Label) : l.mergeNaN.arity = l.arity := by
  cases l with
  | scalar v => cases v <;> rfl
  | map keys => exact List.length_map _
  | _ => rfl

lemma isNode_mergeNaN (l : Label) : l.mergeNaN.isNode = l.isNode := by
  cases l with
  | scalar v => cases v <;> rfl
  | _ => rfl

end Label

namespace Store

variable {s t : Store} {a b : Value}

lemma length_children (s : Store) (v : Value) : (s.children v).length = (s.label v).arity := by
  cases v <;> simp [children, label, Label.arity, Entries.keys]

/-- Whether every path leads to the same kind of value with the same payload, length or keys from
two values, where the bits of a NaN do not count. -/
def Identical (s t : Store) (a b : Value) : Prop :=
  ∀ p, (s.follow a p).map (fun v => (s.label v).mergeNaN) =
    (t.follow b p).map (fun v => (t.label v).mergeNaN)

/-- Values are identical in structure when their labels are and what is below them is. -/
lemma identical_iff : Identical s t a b ↔
    (s.label a).mergeNaN = (t.label b).mergeNaN ∧
      List.Forall₂ (Identical s t) (s.children a) (t.children b) := by
  rw [List.forall₂_iff_get]
  constructor
  · intro h
    have hlabel : (s.label a).mergeNaN = (t.label b).mergeNaN := Option.some.inj (h [])
    have hlength : (s.children a).length = (t.children b).length := by
      rw [length_children, length_children, ← Label.arity_mergeNaN, hlabel, Label.arity_mergeNaN]
    refine ⟨hlabel, hlength, fun i hi hi' p => ?_⟩
    simpa [follow_cons, hi, hi'] using h (i :: p)
  · rintro ⟨hlabel, hlength, hchildren⟩ p
    cases p with
    | nil => exact congrArg some hlabel
    | cons i p =>
      rw [follow_cons, follow_cons]
      by_cases hi : i < (s.children a).length
      · have hi' : i < (t.children b).length := hlength ▸ hi
        rw [List.getElem?_eq_getElem hi, List.getElem?_eq_getElem hi']
        exact hchildren i hi hi' p
      · rw [List.getElem?_eq_none (by omega), List.getElem?_eq_none (by omega)]
        rfl

/-- Labels tell lists and maps from everything else. -/
lemma node?_eq_none_of_label (ha : a.node? = none)
    (hlabel : (s.label a).mergeNaN = (t.label b).mergeNaN) : b.node? = none := by
  rw [node?_eq_none_iff t, ← Label.isNode_mergeNaN, ← hlabel, Label.isNode_mergeNaN,
    ← node?_eq_none_iff]
  exact ha

/-- With nothing below them, values are identical when their labels are. -/
lemma identical_of_leaf (ha : a.node? = none)
    (hlabel : (s.label a).mergeNaN = (t.label b).mergeNaN) : Identical s t a b := by
  rw [identical_iff, children_eq_nil ha, children_eq_nil (node?_eq_none_of_label ha hlabel)]
  exact ⟨hlabel, .nil⟩

lemma identical_list_iff {r q : Ref} : Identical s t (.list r) (.list q) ↔
    List.Forall₂ (Identical s t) (s.items r) (t.items q) := by
  rw [identical_iff]
  exact ⟨And.right, fun h => ⟨congrArg Label.list h.length_eq, h⟩⟩

/-- Whether two entries of maps have the same key, the bits of a NaN apart, and hold values that
are identical in structure. -/
def IdenticalEntries (s t : Store) (e f : Key × Value) : Prop :=
  e.1.mergeNaN = f.1.mergeNaN ∧ Identical s t e.2 f.2

lemma identical_map_iff {r q : Ref} : Identical s t (.map r) (.map q) ↔
    List.Forall₂ (IdenticalEntries s t) (s.entries r) (t.entries q) := by
  rw [identical_iff]
  simp only [label, Label.mergeNaN, children, Entries.keys, Label.map.injEq, List.map_map]
  generalize s.entries r = es
  generalize t.entries q = fs
  induction es generalizing fs with
  | nil => cases fs <;> simp
  | cons e es ih =>
    cases fs with
    | nil => simp
    | cons f fs =>
      simp only [List.map_cons, List.cons.injEq, List.forall₂_cons, ← ih, IdenticalEntries,
        Function.comp_apply]
      exact and_and_and_comm

end Store

end Dynval
