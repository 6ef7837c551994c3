import Dynval.Proofs.Store.Copy
import Dynval.Proofs.Store.Rename

/-!
# Stores above other stores

`base.above t` has the containers of `base` and, behind them, those of `t`, whose addresses are
shifted by the size of `base`. Allocating, replacing contents and copying commute with the shift, so
they never touch `base`.
-/

namespace Dynval

def Ref.shift (n : Nat) (r : Ref) : Ref :=
  ⟨n + r.index⟩

lemma Ref.shift_injective (n : Nat) : Function.Injective (Ref.shift n) := by
  intro r q h
  cases r
  cases q
  simpa [shift] using h

namespace Store

/-- The containers of a store behind those of another one. -/
def above (base t : Store) : Store :=
  ⟨base.cells ++ t.cells.map (Cell.rename (Ref.shift base.size))⟩

/-- A value of a store, in the store above another one. -/
abbrev move (base : Store) : Value → Value :=
  Value.rename (Ref.shift base.size)

variable (base t : Store)

/-- Above a store, the empty store adds nothing. -/
@[simp] lemma above_empty : base.above .empty = base := by
  simp [above, empty]

@[simp] lemma size_above : (base.above t).size = base.size + t.size := by
  simp [above, size]

/-- A store is found above another one, with its addresses shifted. -/
lemma embeds_above : t.Embeds (base.above t) (Ref.shift base.size) := by
  refine ⟨Ref.shift_injective _, fun r => ?_⟩
  simp only [cell?, above, Ref.shift, size]
  rw [Array.getElem?_append_right (Nat.le_add_right _ _), Nat.add_sub_cancel_left,
    Array.getElem?_map]

/-! ### Allocating and replacing contents -/

/-- Adding a container above a store is adding it alone and moving above. -/
lemma alloc_above (c : Cell) :
    (base.above t).alloc (c.rename (Ref.shift base.size)) =
      ((t.alloc c).1.shift base.size, base.above (t.alloc c).2) := by
  simp [alloc, above, Ref.shift, size]

/-- Replacing contents above a store is replacing them alone and moving above. -/
lemma put_above (r : Ref) (c : Cell) :
    (base.above t).put (r.shift base.size) (c.rename (Ref.shift base.size)) =
      base.above (t.put r c) := by
  simp [put, above, Ref.shift, size, Array.setIfInBounds_append_right, Array.map_setIfInBounds]

lemma setItems_above (r : Ref) (items : List Value) :
    (base.above t).setItems (r.shift base.size) (items.map base.move) =
      base.above (t.setItems r items) := by
  rw [setItems, setItems, (base.embeds_above t).cell?]
  rcases t.cell? r with _ | (_ | _ | _)
  case some.list => exact put_above base t r (.list items)
  all_goals rfl

lemma setEntries_above (r : Ref) (entries : Entries Value) :
    (base.above t).setEntries (r.shift base.size) (entries.mapValues base.move) =
      base.above (t.setEntries r entries) := by
  rw [setEntries, setEntries, (base.embeds_above t).cell?]
  rcases t.cell? r with _ | (_ | _ | _)
  case some.map => exact put_above base t r (.map entries)
  all_goals rfl

lemma setData_above (r : Ref) (data : List UInt8) :
    (base.above t).setData (r.shift base.size) data = base.above (t.setData r data) := by
  rw [setData, setData, (base.embeds_above t).cell?]
  rcases t.cell? r with _ | (_ | _ | _)
  case some.byteArray => exact put_above base t r (.byteArray data)
  all_goals rfl

end Store

/-! ### Copying -/

lemma Cell.children_rename (f : Ref → Ref) (c : Cell) :
    (c.rename f).children = c.children.map (Value.rename f) := by
  cases c <;> simp [rename, children, Entries.map_snd_mapValues]

lemma Cell.withChildren_rename (f : Ref → Ref) (c : Cell) (children : List Value) :
    (c.rename f).withChildren (children.map (Value.rename f)) =
      (c.withChildren children).rename f := by
  cases c with
  | map entries =>
    simp only [rename, withChildren, Entries.keys_mapValues, List.zip_map_right]
    rfl
  | _ => rfl

lemma Value.withRef_rename (f : Ref → Ref) (v : Value) (r : Ref) :
    (v.rename f).withRef (f r) = (v.withRef r).rename f := by
  cases v <;> rfl

namespace Copying

/-- A copy under way, above a store. -/
def above (base : Store) (c : Copying) : Copying :=
  ⟨base.above c.store, c.memo.map (Prod.map (Ref.shift base.size) (Ref.shift base.size))⟩

variable (base : Store) (c : Copying)

lemma next_above : (c.above base).next = c.next.shift base.size := by
  simp [next, above, Ref.shift]

/-- A copy under way above a store has met the shifted containers. -/
lemma lookup_memo_above (r : Ref) :
    (c.above base).memo.lookup (r.shift base.size) =
      (c.memo.lookup r).map (Ref.shift base.size) := by
  simp only [above]
  induction c.memo with
  | nil => rfl
  | cons p memo ih =>
    have hkey : (r.shift base.size == p.1.shift base.size) = (r == p.1) := by
      rw [Bool.eq_iff_iff, beq_iff_eq, beq_iff_eq, (Ref.shift_injective _).eq_iff]
    obtain ⟨q, copy⟩ := p
    simp only [List.map_cons, Prod.map, List.lookup_cons, hkey, ih]
    cases r == q <;> rfl

lemma enter_above (r : Ref) (cell : Cell) :
    (c.above base).enter (r.shift base.size) (cell.rename (Ref.shift base.size)) =
      (c.enter r cell).above base := by
  have hempty := cell.withChildren_rename (Ref.shift base.size) []
  rw [List.map_nil] at hempty
  simp only [enter, next_above]
  simp only [above, hempty, Store.alloc_above, List.map_cons, Prod.map]

lemma fill_above (r : Ref) (cell : Cell) :
    (c.above base).fill (r.shift base.size) (cell.rename (Ref.shift base.size)) =
      (c.fill r cell).above base := by
  simp only [fill, above, Store.put_above]

lemma leaf_above (t : Store) (v : Value) :
    (c.above base).leaf (base.above t) (base.move v) =
      (base.move (c.leaf t v).1, (c.leaf t v).2.above base) := by
  cases v with
  | byteArray r =>
    have hdata := (base.embeds_above t).data r
    simp only [Value.rename_byteArray, leaf, hdata, next_above]
    exact congrArg (Prod.mk _) (congrArg (Copying.mk · _)
      (congrArg Prod.snd (base.alloc_above c.store (.byteArray (t.data r)))))
  | _ => rfl

/-- Copying above a store does what copying alone does, container by container. -/
lemma copy_above (t : Store) :
    (∀ c v, ((base.above t).copyValue (c.above base) (base.move v)).1 =
      (base.move (t.copyValue c v).1.1, (t.copyValue c v).1.2.above base)) ∧
    (∀ c vs, ((base.above t).copyValues (c.above base) (vs.map base.move)).1 =
      ((t.copyValues c vs).1.1.map base.move, (t.copyValues c vs).1.2.above base)) := by
  apply Store.copyValue.mutual_induct
  · intro c v hv
    rw [copyValue_leaf hv, copyValue_leaf (by rw [Value.node?_rename, hv]; rfl), leaf_above]
  · intro c v r hv copy hr
    have hv' : (base.move v).node? = some (r.shift base.size) := by
      rw [Value.node?_rename, hv]
      rfl
    rw [copyValue_met hv hr, copyValue_met hv' (by rw [lookup_memo_above, hr]; rfl),
      Value.withRef_rename]
  · intro c v r hv hr ih
    have hv' : (base.move v).node? = some (r.shift base.size) := by
      rw [Value.node?_rename, hv]
      rfl
    rw [copyValue_new hv hr, copyValue_new hv' (by rw [lookup_memo_above, hr]; rfl),
      (base.embeds_above t).contents, enter_above, Cell.children_rename, ih]
    dsimp only
    rw [Cell.withChildren_rename, next_above, fill_above, Value.withRef_rename]
  · intro c
    rw [List.map_nil, Store.copyValues, Store.copyValues]
    rfl
  · intro c v rest first ih₁ ih₂ _
    rw [List.map_cons, Store.copyValues, Store.copyValues]
    dsimp only
    rw [ih₁]
    dsimp only
    rw [ih₂, List.map_cons]

end Copying

/-- A deep copy above a store is the moved deep copy. -/
lemma Store.deepCopy_above (base t : Store) (v : Value) :
    (base.above t).deepCopy (base.move v) =
      (base.move (t.deepCopy v).1, base.above (t.deepCopy v).2) := by
  have hcopy := (Copying.copy_above base t).1 ⟨t, []⟩ v
  change ((base.above t).copyValue ⟨base.above t, []⟩ _).1 = _ at hcopy
  simp only [deepCopy, hcopy]
  rfl

end Dynval
