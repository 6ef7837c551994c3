import Mathlib
import Dynval.Platform
import Dynval.Proofs.Store.Copy
import Dynval.Proofs.Store.Rename

/-!
# Byte arrays in deep copies

A deep copy gives each list and map one copy, but a byte array one at each place where it is held.
So no byte array of a copy is held at two places (`Copying.Separate`), and two paths meet in a byte
array of the copy exactly when their last steps are one and the same place of one list or map. Byte
arrays that are shared in any other way are shared no more.
-/

namespace Dynval

namespace Cell

lemma children_withChildren_nil (cell : Cell) : (cell.withChildren []).children = [] := by
  cases cell <;> simp [withChildren, children]

lemma children_withChildren {cell : Cell} {children : List Value}
    (h : children.length = cell.children.length) :
    (cell.withChildren children).children = children := by
  cases cell with
  | list items => rfl
  | map entries =>
    rw [Cell.children, List.length_map] at h
    exact List.map_snd_zip (by simp [Entries.keys, h])
  | byteArray data => exact (List.eq_nil_of_length_eq_zero h).symm

end Cell

lemma Value.withRef_ne_byteArray {v : Value} {r : Ref} (hv : v.node? = some r) (q x : Ref) :
    v.withRef q ≠ .byteArray x := by
  cases v <;> simp_all [node?, withRef]

namespace Store

variable {s t : Store} {lo : Nat} {pending : List Value} {c : Cell} {r x : Ref}

/-! ### How often a byte array is held -/

/-- The places of the containers from an address on, with what is held there. -/
def places (t : Store) (lo : Nat) : List Value :=
  (t.cells.toList.drop lo).flatMap Cell.children

/-- At how many places of the containers from an address on, and how often among the values that
are on their way into one, a byte array is held. -/
def holders (t : Store) (lo : Nat) (pending : List Value) (x : Ref) : Nat :=
  (t.places lo ++ pending).count (.byteArray x)

/-- A new container adds its places behind the others. -/
lemma places_alloc (h : lo ≤ t.size) : (t.alloc c).2.places lo = t.places lo ++ c.children := by
  have hlo : lo ≤ t.cells.toList.length := h
  simp only [places, alloc, Array.toList_push, List.drop_append_of_le_length hlo,
    List.flatMap_append, List.flatMap_singleton]

lemma count_flatMap_set {cells : List Cell} {k : Nat} (hk : cells[k]? = some c)
    (hc : c.children = []) (d : Cell) (v : Value) :
    ((cells.set k d).flatMap Cell.children).count v =
      (cells.flatMap Cell.children).count v + d.children.count v := by
  induction cells generalizing k with
  | nil => simp at hk
  | cons e cells ih =>
    cases k with
    | zero =>
      obtain rfl : e = c := Option.some.inj hk
      simp [hc, Nat.add_comm]
    | succ k => simp [ih hk, Nat.add_assoc]

/-- Filling an empty container adds what it is filled with. -/
lemma count_places_put (hr : lo ≤ r.index) (hcell : t.cell? r = some c) (hc : c.children = [])
    (d : Cell) (v : Value) :
    ((t.put r d).places lo).count v = (t.places lo).count v + d.children.count v := by
  have hget : (t.cells.toList.drop lo)[r.index - lo]? = some c := by
    rw [List.getElem?_drop, Nat.add_sub_cancel' hr, Array.getElem?_toList]
    exact hcell
  rw [places, places, put, Array.toList_setIfInBounds, List.drop_set, if_neg (Nat.not_lt.2 hr)]
  exact count_flatMap_set hget hc d v

/-- What occurs once has one index. -/
lemma index_eq_of_count_le_one {vs : List Value} {v : Value} (h : vs.count v ≤ 1) {i j : Nat}
    (hi : vs[i]? = some v) (hj : vs[j]? = some v) : i = j := by
  induction vs generalizing i j with
  | nil => simp at hi
  | cons w vs ih =>
    have hmem : ∀ {k : Nat}, vs[k]? = some v → 1 ≤ vs.count v := fun hk =>
      List.one_le_count_iff.2 (List.mem_iff_getElem?.2 ⟨_, hk⟩)
    rw [List.count_cons] at h
    cases i with
    | zero =>
      obtain rfl : w = v := Option.some.inj hi
      cases j with
      | zero => rfl
      | succ j =>
        have := hmem hj
        simp only [BEq.rfl, if_true] at h
        omega
    | succ i =>
      cases j with
      | zero =>
        obtain rfl : w = v := Option.some.inj hj
        have := hmem hi
        simp only [BEq.rfl, if_true] at h
        omega
      | succ j => rw [ih (Nat.le_trans (Nat.le_add_right _ _) h) hi hj]

/-- What is held at most once in some containers is held at one place only. -/
lemma place_eq_of_count_le_one {cells : List Cell} {v : Value}
    (h : (cells.flatMap Cell.children).count v ≤ 1) {k l i j : Nat} {d : Cell}
    (hk : cells[k]? = some c) (hi : c.children[i]? = some v) (hl : cells[l]? = some d)
    (hj : d.children[j]? = some v) : k = l ∧ i = j := by
  induction cells generalizing k l with
  | nil => simp at hk
  | cons e cells ih =>
    have hmem : ∀ {m n : Nat} {b : Cell}, cells[m]? = some b → b.children[n]? = some v →
        1 ≤ (cells.flatMap Cell.children).count v := fun hm hn =>
      List.one_le_count_iff.2 (List.mem_flatMap.2
        ⟨_, List.mem_iff_getElem?.2 ⟨_, hm⟩, List.mem_iff_getElem?.2 ⟨_, hn⟩⟩)
    have hhead : ∀ {n : Nat}, e.children[n]? = some v → 1 ≤ e.children.count v := fun hn =>
      List.one_le_count_iff.2 (List.mem_iff_getElem?.2 ⟨_, hn⟩)
    rw [List.flatMap_cons, List.count_append] at h
    cases k with
    | zero =>
      obtain rfl : e = c := Option.some.inj hk
      cases l with
      | zero =>
        obtain rfl : e = d := Option.some.inj hl
        exact ⟨rfl, index_eq_of_count_le_one (Nat.le_trans (Nat.le_add_right _ _) h) hi hj⟩
      | succ l =>
        have := hhead hi
        have := hmem hl hj
        omega
    | succ k =>
      cases l with
      | zero =>
        obtain rfl : e = d := Option.some.inj hl
        have := hhead hj
        have := hmem hk hi
        omega
      | succ l =>
        obtain ⟨rfl, rfl⟩ := ih (Nat.le_trans (Nat.le_add_left _ _) h) hk hl
        exact ⟨rfl, rfl⟩

end Store

namespace Copying

open Store

variable {s : Store} {c : Copying} {opened : List Ref} {pending : List Value} {v w : Value}
  {r : Ref}

/-- Whether every byte array is held at most once by the new containers and the values that are on
their way into one, and none that is not there yet. -/
def Separate (s : Store) (c : Copying) (pending : List Value) : Prop :=
  ∀ x : Ref, c.store.holders s.size pending x ≤ if x.index < c.store.size then 1 else 0

/-- At the start nothing new holds a byte array. -/
lemma separate_start (s : Store) : Separate s ⟨s, []⟩ [] := by
  intro x
  have hplaces : s.places s.size = [] := by
    have hdrop : s.cells.toList.drop s.size = [] := List.drop_eq_nil_of_le (Nat.le_refl _)
    rw [places, hdrop, List.flatMap_nil]
  simp [holders, hplaces]

/-- A container without contents has no places. -/
lemma holders_alloc {t : Store} {lo : Nat} (h : lo ≤ t.size) {cell : Cell}
    (hcell : cell.children = []) (pending : List Value) (x : Ref) :
    (t.alloc cell).2.holders lo pending x = t.holders lo pending x := by
  rw [holders, holders, places_alloc h, hcell, List.append_nil]

/-- A value on its way holds a byte array if it is one. -/
lemma holders_cons (t : Store) (lo : Nat) (v : Value) (pending : List Value) (x : Ref) :
    t.holders lo (v :: pending) x =
      t.holders lo pending x + if v = .byteArray x then 1 else 0 := by
  simp only [holders, List.count_append, List.count_cons, beq_iff_eq, Nat.add_assoc]

/-- A value that is no byte array may be on its way. -/
lemma Separate.cons (h : Separate s c pending) (hv : ∀ x, v ≠ .byteArray x) :
    Separate s c (v :: pending) := by
  intro x
  rw [holders_cons, if_neg (hv x)]
  exact h x

lemma Separate.enter (h : Separate s c pending) (hsize : s.size ≤ c.store.size) (r : Ref)
    (cell : Cell) : Separate s (c.enter r cell) pending := by
  intro x
  have hx := h x
  simp only [Copying.enter, size_alloc, holders_alloc hsize cell.children_withChildren_nil]
  split_ifs at hx ⊢ <;> omega

/-- A byte array is copied afresh, so nothing holds the copy yet. -/
lemma Separate.leaf (h : Separate s c pending) (hsize : s.size ≤ c.store.size)
    (hv : v.node? = none) : Separate s (c.leaf s v).2 ((c.leaf s v).1 :: pending) := by
  cases v with
  | byteArray r =>
    -- the new byte array is not held yet
    intro x
    have hx := h x
    have hempty : (Cell.byteArray (s.data r)).children = [] := rfl
    have hnew : Value.byteArray c.next = .byteArray x ↔ x.index = c.store.size := by
      cases x
      simp [next, eq_comm]
    simp only [Copying.leaf, holders_cons, size_alloc, holders_alloc hsize hempty, hnew]
    split_ifs at hx ⊢ <;> omega
  | list r => cases hv
  | map r => cases hv
  | _ => exact h.cons fun x hx => by cases hx

/-- What a copy is filled with is no more on its way. -/
lemma Separate.fill {cell : Cell} {children : List Value} (h : Separate s c (children ++ pending))
    (hr : s.size ≤ r.index) (hcell : c.store.cell? r = some (cell.withChildren []))
    (hlength : children.length = cell.children.length) :
    Separate s (c.fill r (cell.withChildren children)) pending := by
  intro x
  have hx := h x
  simp only [holders, List.count_append, Copying.fill, size_put,
    count_places_put hr hcell cell.children_withChildren_nil,
    Cell.children_withChildren hlength] at hx ⊢
  omega

/-- Copying a value, or values, puts it on its way; no byte array is held twice. -/
lemma separate_copy (s : Store) :
    (∀ c v opened pending, Sound s opened c → Separate s c pending →
      Separate s (s.copyValue c v).1.2 ((s.copyValue c v).1.1 :: pending)) ∧
    (∀ c vs opened pending, Sound s opened c → Separate s c pending →
      Separate s (s.copyValues c vs).1.2 ((s.copyValues c vs).1.1 ++ pending)) := by
  apply Store.copyValue.mutual_induct
  · intro c v hv opened pending hc h
    rw [copyValue_leaf hv]
    exact h.leaf hc.size hv
  · intro c v r hv copy hr opened pending hc h
    rw [copyValue_met hv hr]
    exact h.cons (Value.withRef_ne_byteArray hv copy)
  · intro c v r hv hr ih opened pending hc h
    have henter := hc.enter (not_mem_met_of_lookup hr) (s.contents r)
    obtain ⟨hext, -, hchildren⟩ := (copy_spec s).2 _ (s.contents r).children (r :: opened) henter
    have hsep := ih (r :: opened) pending henter (h.enter hc.size r (s.contents r))
    rw [copyValue_new hv hr]
    refine Separate.cons ?_ (Value.withRef_ne_byteArray hv c.next)
    exact hsep.fill hc.size (hext.cell?_eq_some (cell?_enter c r _)) hchildren.length_eq.symm
  · intro c opened pending hc h
    rw [Store.copyValues]
    exact h
  · intro c v rest first ih₁ ih₂ _ opened pending hc h
    obtain ⟨-, hc₁, -⟩ := (copy_spec s).1 c v opened hc
    have hsep := ih₂ opened _ hc₁ (ih₁ opened pending hc h)
    rw [Store.copyValues]
    intro x
    refine Nat.le_trans (Nat.le_of_eq ?_) (hsep x)
    simp only [holders, List.count_append, List.count_cons, List.cons_append, first]
    omega

end Copying

namespace Store

variable {s t : Store} {v w : Value} {p q : List Nat}

/-- The byte array at the end of a path. -/
def byteArrayAt (s : Store) (v : Value) (p : List Nat) : Option Ref :=
  match s.follow v p with
  | some (.byteArray r) => some r
  | _ => none

/-- Whether two paths are one, or end with the same step from one list or map. -/
def SamePlace (s : Store) (v : Value) (p q : List Nat) : Prop :=
  p = q ∨ ∃ p' q' i r, p = p' ++ [i] ∧ q = q' ++ [i] ∧
    s.nodeAt v p' = some r ∧ s.nodeAt v q' = some r

lemma byteArrayAt_eq_some {r : Ref} :
    s.byteArrayAt v p = some r ↔ s.follow v p = some (.byteArray r) := by
  unfold byteArrayAt
  split <;> simp_all

lemma eq_nil_of_follow_byteArray {r : Ref} {u : Value}
    (h : s.follow (.byteArray r) p = some u) : p = [] := by
  cases p with
  | nil => rfl
  | cons i p => simp [follow_cons, children] at h

/-- The last step of a path that leads to a byte array, if it has one, is a step from a list or
map. -/
lemma exists_place {r : Ref} (hp : s.follow v p = some (.byteArray r)) :
    p = [] ∧ v = .byteArray r ∨
      ∃ p' i n c, p = p' ++ [i] ∧ s.nodeAt v p' = some n ∧ s.cell? n = some c ∧
        c.children[i]? = some (.byteArray r) := by
  rcases List.eq_nil_or_concat p with rfl | ⟨p', i, rfl⟩
  · exact Or.inl ⟨rfl, Option.some.inj hp⟩
  · rw [List.concat_eq_append] at hp ⊢
    obtain ⟨u, hu, hi⟩ := exists_follow_of_concat hp
    obtain ⟨n, c, hn, hc, hchildren⟩ :=
      exists_cell_children_eq (List.mem_iff_getElem?.2 ⟨i, hi⟩)
    refine Or.inr ⟨p', i, n, c, rfl, (nodeAt_of_follow hu).trans hn, hc, ?_⟩
    rw [hchildren, hi]

/-- Two paths that end at the same place lead to the same byte array. -/
lemma SamePlace.eq {r r' : Ref} (h : s.SamePlace v p q) (hp : s.follow v p = some (.byteArray r))
    (hq : s.follow v q = some (.byteArray r')) : r = r' := by
  rcases h with rfl | ⟨p', q', i, n, rfl, rfl, hn, hn'⟩
  · exact Value.byteArray.inj (Option.some.inj (hp.symm.trans hq))
  · obtain ⟨u, hu, hi⟩ := exists_follow_of_concat hp
    obtain ⟨u', hu', hi'⟩ := exists_follow_of_concat hq
    obtain ⟨m, c, hm, hc, hchildren⟩ := exists_cell_children_eq (List.mem_iff_getElem?.2 ⟨i, hi⟩)
    obtain ⟨m', c', hm', hc', hchildren'⟩ :=
      exists_cell_children_eq (List.mem_iff_getElem?.2 ⟨i, hi'⟩)
    have hnode : m = m' := by
      rw [nodeAt_of_follow hu, hm] at hn
      rw [nodeAt_of_follow hu', hm'] at hn'
      exact Option.some.inj (hn.trans hn'.symm)
    subst hnode
    obtain rfl : c = c' := Option.some.inj (hc.symm.trans hc')
    rw [← hchildren] at hi
    rw [← hchildren'] at hi'
    exact Value.byteArray.inj (Option.some.inj (hi.symm.trans hi'))

/-- Where byte arrays are held at one place each, paths to the same byte array end at the same
place. -/
lemma samePlace_of_holders {lo : Nat} (hfresh : ∀ p n, s.nodeAt v p = some n → lo ≤ n.index)
    (hholders : ∀ x, s.holders lo [v] x ≤ 1) {r : Ref} (hp : s.follow v p = some (.byteArray r))
    (hq : s.follow v q = some (.byteArray r)) : s.SamePlace v p q := by
  rcases exists_place hp with ⟨rfl, rfl⟩ | ⟨p', i, n, c, rfl, hn, hc, hi⟩
  · exact Or.inl (eq_nil_of_follow_byteArray hq).symm
  rcases exists_place hq with ⟨rfl, rfl⟩ | ⟨q', j, m, d, rfl, hm, hd, hj⟩
  · exact Or.inl (eq_nil_of_follow_byteArray hp)
  have hcount : (s.places lo).count (.byteArray r) ≤ 1 := by
    have := hholders r
    rw [holders, List.count_append] at this
    omega
  have hn' := hfresh p' n hn
  have hm' := hfresh q' m hm
  have hget : ∀ {k : Ref} {e : Cell}, lo ≤ k.index → s.cell? k = some e →
      (s.cells.toList.drop lo)[k.index - lo]? = some e := by
    intro k e hk he
    rw [List.getElem?_drop, Nat.add_sub_cancel' hk, Array.getElem?_toList]
    exact he
  obtain ⟨hindex, rfl⟩ := place_eq_of_count_le_one hcount (hget hn' hc) hi (hget hm' hd) hj
  have hnm : n = m := by
    cases n
    cases m
    simp only [Ref.mk.injEq] at hn' hm' hindex ⊢
    omega
  exact Or.inr ⟨p', q', i, n, rfl, rfl, hn, hnm ▸ hm⟩

namespace Bisimulation

variable {R : Value → Value → Prop}

/-- Whether two paths end in one place looks the same from related values. -/
lemma samePlace_iff (hR : Bisimulation s t R) (h : R v w) :
    s.SamePlace v p q ↔ t.SamePlace w p q := by
  unfold SamePlace
  refine or_congr_right ?_
  constructor
  · rintro ⟨p', q', i, r, rfl, rfl, hp, hq⟩
    obtain ⟨r', hp', hq'⟩ := (hR.nodeAt_meet p' q' h).1 ⟨r, hp, hq⟩
    exact ⟨p', q', i, r', rfl, rfl, hp', hq'⟩
  · rintro ⟨p', q', i, r, rfl, rfl, hp, hq⟩
    obtain ⟨r', hp', hq'⟩ := (hR.nodeAt_meet p' q' h).2 ⟨r, hp, hq⟩
    exact ⟨p', q', i, r', rfl, rfl, hp', hq'⟩

lemma exists_byteArrayAt (hR : Bisimulation s t R) (h : R v w) {r : Ref}
    (hp : s.byteArrayAt v p = some r) : ∃ x, t.byteArrayAt w p = some x := by
  simp only [byteArrayAt_eq_some] at hp ⊢
  rcases hR.follow p h with ⟨hnone, -⟩ | ⟨v', w', hv', hw', hrel⟩
  · rw [hp] at hnone
    cases hnone
  · obtain rfl : v' = .byteArray r := Option.some.inj (hv'.symm.trans hp)
    have hlabel := hR.label hrel
    cases w' with
    | byteArray x => exact ⟨x, hw'⟩
    | _ => cases hlabel

end Bisimulation

/-- The byte arrays at the ends of two paths of a deep copy are one exactly when the paths end at
the same place of the original. So a deep copy keeps the sharing of byte arrays exactly when all
paths to one byte array end at the same place. -/
theorem deepCopy_shares_byteArrays_iff (s : Store) (v : Value) :
    let w := (s.deepCopy v).1
    let t := (s.deepCopy v).2
    (∀ p q r r', s.byteArrayAt v p = some r → s.byteArrayAt v q = some r' →
      ((∃ x, t.byteArrayAt w p = some x ∧ t.byteArrayAt w q = some x) ↔ s.SamePlace v p q)) ∧
    ((∀ p q r, s.byteArrayAt v p = some r → s.byteArrayAt v q = some r →
        ∃ x, t.byteArrayAt w p = some x ∧ t.byteArrayAt w q = some x) ↔
      ∀ p q r, s.byteArrayAt v p = some r → s.byteArrayAt v q = some r →
        s.SamePlace v p q) := by
  intro w t
  have hstart := Copying.Sound.start s
  obtain ⟨-, hsound, hcopy⟩ := (Copying.copy_spec s).1 ⟨s, []⟩ v [] hstart
  have hbisim := hsound.bisimulation
  have hseparate := (Copying.separate_copy s).1 ⟨s, []⟩ v [] [] hstart (Copying.separate_start s)
  have hholders : ∀ x, t.holders s.size [w] x ≤ 1 := fun x =>
    Nat.le_trans (hseparate x) (by split_ifs <;> simp)
  have hfresh : ∀ p n, t.nodeAt w p = some n → s.size ≤ n.index := by
    intro p n hn
    obtain ⟨u, hu, hnode⟩ := Option.bind_eq_some_iff.1 hn
    rcases hbisim.follow p hcopy with ⟨-, hnone⟩ | ⟨v', w', -, hw', hrel⟩
    · exact absurd (hu.symm.trans hnone) (by simp)
    · obtain rfl : u = w' := Option.some.inj (hu.symm.trans hw')
      exact (hrel.index_of_ref? hsound (Value.ref?_of_node? hnode)).1
  have hmeet : ∀ p q r r', s.byteArrayAt v p = some r → s.byteArrayAt v q = some r' →
      ((∃ x, t.byteArrayAt w p = some x ∧ t.byteArrayAt w q = some x) ↔ s.SamePlace v p q) := by
    intro p q r r' hp hq
    rw [hbisim.samePlace_iff hcopy]
    constructor
    · rintro ⟨x, hxp, hxq⟩
      exact samePlace_of_holders hfresh hholders (byteArrayAt_eq_some.1 hxp)
        (byteArrayAt_eq_some.1 hxq)
    · intro hplace
      obtain ⟨x, hx⟩ := hbisim.exists_byteArrayAt hcopy hp
      obtain ⟨x', hx'⟩ := hbisim.exists_byteArrayAt hcopy hq
      have hxx' := hplace.eq (byteArrayAt_eq_some.1 hx) (byteArrayAt_eq_some.1 hx')
      exact ⟨x, hx, hxx' ▸ hx'⟩
  refine ⟨hmeet, ?_⟩
  exact ⟨fun h p q r hp hq => (hmeet p q r r hp hq).1 (h p q r hp hq),
    fun h p q r hp hq => (hmeet p q r r hp hq).2 (h p q r hp hq)⟩

section

attribute [local instance] Platform.standard

/-- A list that holds one byte array twice: in its deep copy the two places hold two byte arrays,
and a write to the first of them is not seen at the second. -/
theorem deepCopy_splits_shared_byteArray :
    let s : Store := ⟨#[.byteArray [1], .list [.byteArray ⟨0⟩, .byteArray ⟨0⟩]]⟩
    let w := (s.deepCopy (.list ⟨1⟩)).1
    let t := (s.deepCopy (.list ⟨1⟩)).2
    s.byteArrayAt (.list ⟨1⟩) [0] = some ⟨0⟩ ∧ s.byteArrayAt (.list ⟨1⟩) [1] = some ⟨0⟩ ∧
      ¬ (∃ x, t.byteArrayAt w [0] = some x ∧ t.byteArrayAt w [1] = some x) ∧
      ∃ x, t.byteArrayAt w [0] = some x ∧
        w.repr (t.setData x [9]) = "[bytearray(b'\\t'), bytearray(b'\\x01')]" := by
  have hcopy : Store.deepCopy ⟨#[.byteArray [1], .list [.byteArray ⟨0⟩, .byteArray ⟨0⟩]]⟩
      (.list ⟨1⟩) = (.list ⟨2⟩, ⟨#[.byteArray [1], .list [.byteArray ⟨0⟩, .byteArray ⟨0⟩],
        .list [.byteArray ⟨3⟩, .byteArray ⟨4⟩], .byteArray [1], .byteArray [1]]⟩) := by
    cbv
  dsimp only
  rw [hcopy]
  refine ⟨rfl, rfl, ?_, ⟨3⟩, rfl, by cbv⟩
  rintro ⟨x, hx, hx'⟩
  have hthree : (⟨3⟩ : Ref) = x := Option.some.inj hx
  have hfour : (⟨4⟩ : Ref) = x := Option.some.inj hx'
  cases hthree.trans hfour.symm

end

end Store

end Dynval
