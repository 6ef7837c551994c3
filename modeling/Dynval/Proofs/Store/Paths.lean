import Mathlib.Data.List.Forall2
import Dynval.Store.Copy

/-!
# Paths through a store

A value is the root of a graph: a list leads to its elements and a map to what its entries hold. A
path is a list of positions, an entry of a map being counted in key order. `Store.follow` is the
value at the end of a path and `Store.label` what is seen of a value without following references.

A value is acyclic when no list or map is found below itself; `Store.Acyclic.induction` is then
induction along the paths. A store is layered when containers hold only older ones, and then all its
values are acyclic.
-/

namespace Dynval

lemma forall₂_imp_of_mem {α β : Type} {R S : α → β → Prop} {as : List α} {bs : List β}
    (h : List.Forall₂ R as bs) (himp : ∀ a ∈ as, ∀ b ∈ bs, R a b → S a b) :
    List.Forall₂ S as bs := by
  induction h with
  | nil => exact .nil
  | cons hab _ ih =>
    exact .cons (himp _ List.mem_cons_self _ List.mem_cons_self hab)
      (ih fun a ha b hb => himp a (List.mem_cons_of_mem _ ha) b (List.mem_cons_of_mem _ hb))

lemma map_eq_map_of_forall₂ {α β γ : Type} {R : α → β → Prop} {f : α → γ} {g : β → γ}
    {as : List α} {bs : List β} (h : List.Forall₂ R as bs)
    (heq : ∀ a ∈ as, ∀ b ∈ bs, R a b → f a = g b) : as.map f = bs.map g := by
  rw [← List.forall₂_eq_eq_eq, List.forall₂_map_left_iff, List.forall₂_map_right_iff]
  exact forall₂_imp_of_mem h heq

lemma forall₂_congr_of_mem_zip {α β : Type} {R S : α → β → Prop} {as : List α} {bs : List β}
    (h : ∀ p ∈ as.zip bs, R p.1 p.2 ↔ S p.1 p.2) :
    List.Forall₂ R as bs ↔ List.Forall₂ S as bs := by
  rw [List.forall₂_iff_zip, List.forall₂_iff_zip]
  refine and_congr_right fun _ => ⟨fun hR a b hab => ?_, fun hS a b hab => ?_⟩
  · exact (h (a, b) hab).1 (hR hab)
  · exact (h (a, b) hab).2 (hS hab)

/-- What is seen of a value without following references: the payload of a scalar or byte array,
the length of a list, the keys of a map. -/
inductive Label where
  | scalar (v : Value)
  | byteArray (data : List UInt8)
  | list (length : Nat)
  | map (keys : List Key)
deriving DecidableEq

def Label.isNode : Label → Bool
  | .list _ | .map _ => true
  | .scalar _ | .byteArray _ => false

def Value.ref? : Value → Option Ref
  | .list r | .map r | .byteArray r => some r
  | _ => none

namespace Store

variable {s t : Store} {v w : Value} {r : Ref}

def label (s : Store) : Value → Label
  | .list r => .list (s.items r).length
  | .map r => .map (s.entries r).keys
  | .byteArray r => .byteArray (s.data r)
  | v => .scalar v

def children (s : Store) : Value → List Value
  | .list r => s.items r
  | .map r => (s.entries r).map Prod.snd
  | _ => []

/-- The value at the end of a path. -/
def follow (s : Store) (v : Value) : List Nat → Option Value
  | [] => some v
  | i :: p => (s.children v)[i]?.bind fun w => s.follow w p

/-- The list or map at the end of a path. -/
def nodeAt (s : Store) (v : Value) (p : List Nat) : Option Ref :=
  (s.follow v p).bind Value.node?

/-- Whether a list or map is at the end of some path. -/
def Reaches (s : Store) (v : Value) (r : Ref) : Prop :=
  ∃ p, s.nodeAt v p = some r

/-- Whether no list or map below a value, or the value itself, is found below itself. -/
def Acyclic (s : Store) (v : Value) : Prop :=
  ∀ p q r, q ≠ [] → s.nodeAt v p = some r → s.nodeAt v (p ++ q) ≠ some r

lemma node?_eq_none_iff (s : Store) (v : Value) : v.node? = none ↔ (s.label v).isNode = false := by
  cases v <;> simp [Value.node?, label, Label.isNode]

@[simp] lemma follow_nil (s : Store) (v : Value) : s.follow v [] = some v := rfl

lemma follow_cons (s : Store) (v : Value) (i : Nat) (p : List Nat) :
    s.follow v (i :: p) = (s.children v)[i]?.bind fun w => s.follow w p := rfl

/-- A path is followed part by part. -/
lemma follow_append (s : Store) (v : Value) (p q : List Nat) :
    s.follow v (p ++ q) = (s.follow v p).bind fun w => s.follow w q := by
  induction p generalizing v with
  | nil => simp
  | cons i p ih => simp [follow_cons, ih, Option.bind_assoc]

lemma follow_concat {p : List Nat} (hp : s.follow v p = some w) (i : Nat) :
    s.follow v (p ++ [i]) = (s.children w)[i]? := by
  rw [follow_append, hp, Option.bind_some, follow_cons]
  cases (s.children w)[i]? <;> rfl

lemma exists_follow_of_concat {p : List Nat} {i : Nat} (h : s.follow v (p ++ [i]) = some w) :
    ∃ u, s.follow v p = some u ∧ (s.children u)[i]? = some w := by
  have hbind := h
  rw [follow_append] at hbind
  obtain ⟨u, hu, -⟩ := Option.bind_eq_some_iff.1 hbind
  exact ⟨u, hu, (follow_concat hu i).symm.trans h⟩

lemma nodeAt_nil (s : Store) (v : Value) : s.nodeAt v [] = v.node? := rfl

lemma nodeAt_of_follow {p : List Nat} (hp : s.follow v p = some w) : s.nodeAt v p = w.node? := by
  rw [nodeAt, hp, Option.bind_some]

lemma exists_nodeAt_cons (h : w ∈ s.children v) :
    ∃ i, ∀ p, s.nodeAt v (i :: p) = s.nodeAt w p := by
  obtain ⟨i, hi⟩ := List.mem_iff_getElem?.1 h
  exact ⟨i, fun p => by simp [nodeAt, follow_cons, hi]⟩

lemma reaches_of_node? (h : v.node? = some r) : s.Reaches v r :=
  ⟨[], h⟩

/-- What is reached from a child is reached. -/
lemma Reaches.of_child (hw : w ∈ s.children v) (h : s.Reaches w r) : s.Reaches v r := by
  obtain ⟨i, hi⟩ := exists_nodeAt_cons hw
  obtain ⟨p, hp⟩ := h
  exact ⟨i :: p, (hi p).trans hp⟩

/-- Only a list or map has something below it, and only one that is in the store. -/
lemma exists_node_of_mem_children (h : w ∈ s.children v) :
    ∃ r, v.node? = some r ∧ r ∈ s.refs := by
  cases v with
  | list r => exact ⟨r, rfl, mem_refs_of_mem_items h⟩
  | map r =>
    obtain ⟨e, he, rfl⟩ := List.mem_map.1 h
    exact ⟨r, rfl, mem_refs_of_mem_entries he⟩
  | _ => simp [children] at h

/-- Only lists and maps have something below them. -/
lemma children_eq_nil (h : v.node? = none) : s.children v = [] := by
  refine List.eq_nil_iff_forall_not_mem.2 fun w hw => ?_
  obtain ⟨r, hr, -⟩ := exists_node_of_mem_children hw
  rw [h] at hr
  cases hr

/-! ### Acyclic values -/

/-- A value that is neither a list nor a map is acyclic. -/
lemma acyclic_of_node?_eq_none (h : v.node? = none) : s.Acyclic v := by
  intro p q r _ hp _
  cases p with
  | nil =>
    rw [nodeAt_nil, h] at hp
    cases hp
  | cons i p => simp [nodeAt, follow_cons, children_eq_nil h] at hp

namespace Acyclic

/-- What is below a value without cycles has none. -/
lemma child (hv : s.Acyclic v) (hw : w ∈ s.children v) : s.Acyclic w := by
  obtain ⟨i, hi⟩ := exists_nodeAt_cons hw
  intro p q r hq hp hpq
  exact hv (i :: p) q r hq ((hi p).trans hp) ((hi (p ++ q)).trans hpq)

/-- No way leads back to a value without cycles. -/
lemma not_reaches_child (hv : s.Acyclic v) (hr : v.node? = some r) (hw : w ∈ s.children v) :
    ¬ s.Reaches w r := by
  rintro ⟨p, hp⟩
  obtain ⟨i, hi⟩ := exists_nodeAt_cons hw
  exact hv [] (i :: p) r (by simp) hr ((hi p).trans hp)

/-- What holds of a value whenever it holds of everything one step below holds of every acyclic
value. -/
@[elab_as_elim]
theorem induction {P : Value → Prop} {v : Value} (hv : s.Acyclic v)
    (step : ∀ v, s.Acyclic v → (∀ w ∈ s.children v, P w) → P v) : P v := by
  -- `above` holds the containers on the way to `v`; the way down from `v` never meets them again
  suffices h : ∀ n above v, unseen s.refs above = n → s.Acyclic v →
      (∀ r ∈ above, ¬ s.Reaches v r) → P v from h _ [] v rfl hv (by simp)
  intro n
  induction n using Nat.strongRecOn with
  | _ n ih =>
    intro above v hn hv habove
    refine step v hv fun w hw => ?_
    obtain ⟨r, hr, hmem⟩ := exists_node_of_mem_children hw
    have hnew : r ∉ above := fun h => habove r h (reaches_of_node? hr)
    refine ih _ (hn ▸ unseen_cons_lt hmem hnew) (r :: above) w rfl (hv.child hw) ?_
    intro q hq hwq
    rcases List.mem_cons.1 hq with rfl | hq
    · exact hv.not_reaches_child hr hw hwq
    · exact habove q hq (hwq.of_child hw)

end Acyclic

/-! ### Layered stores -/

/-- Whether containers hold only containers made before them. -/
def Layered (s : Store) : Prop :=
  ∀ r ∈ s.refs, ∀ c ∈ s.cell? r, ∀ w ∈ c.children, ∀ q ∈ w.node?, q.index < r.index

instance (s : Store) : Decidable s.Layered :=
  inferInstanceAs (Decidable (∀ r ∈ s.refs, ∀ c ∈ s.cell? r, ∀ w ∈ c.children, ∀ q ∈ w.node?,
    q.index < r.index))

lemma exists_cell_of_mem_children (hr : v.node? = some r) (hw : w ∈ s.children v) :
    ∃ c, s.cell? r = some c ∧ w ∈ c.children := by
  cases v with
  | list q =>
    obtain rfl : q = r := Option.some.inj hr
    simp only [children, items] at hw
    split at hw
    case h_1 xs hcell => exact ⟨_, hcell, hw⟩
    case h_2 => cases hw
  | map q =>
    obtain rfl : q = r := Option.some.inj hr
    simp only [children, entries] at hw
    split at hw
    case h_1 es hcell => exact ⟨_, hcell, hw⟩
    case h_2 => cases hw
  | _ => cases hr

/-- What is below a list or map are the contents of its container. -/
lemma exists_cell_children_eq (hw : w ∈ s.children v) :
    ∃ r c, v.node? = some r ∧ s.cell? r = some c ∧ c.children = s.children v := by
  cases v with
  | list r =>
    simp only [children, items] at hw ⊢
    split at hw
    case h_1 xs hcell => exact ⟨r, _, rfl, hcell, rfl⟩
    case h_2 => cases hw
  | map r =>
    simp only [children, entries] at hw ⊢
    split at hw
    case h_1 es hcell => exact ⟨r, _, rfl, hcell, rfl⟩
    case h_2 => cases hw
  | _ => cases hw

/-- In a layered store everything below a list or map is older. -/
lemma Layered.index_lt (hs : s.Layered) {i : Nat} {p : List Nat} {q : Ref} (hr : v.node? = some r)
    (hq : s.nodeAt v (i :: p) = some q) : q.index < r.index := by
  induction p generalizing v r i with
  | nil =>
    obtain ⟨w, hw, hq⟩ := Option.bind_eq_some_iff.1 hq
    obtain ⟨w', hw', hww'⟩ := Option.bind_eq_some_iff.1 hw
    obtain rfl : w' = w := Option.some.inj hww'
    obtain ⟨c, hc, hmem⟩ := exists_cell_of_mem_children hr (List.mem_iff_getElem?.2 ⟨i, hw'⟩)
    exact hs r (mem_refs_of_cell? hc) c hc w' hmem q hq
  | cons j p ih =>
    obtain ⟨u, hu, hq⟩ := Option.bind_eq_some_iff.1 hq
    obtain ⟨w, hw, hwu⟩ := Option.bind_eq_some_iff.1 hu
    obtain ⟨x, hx, -⟩ := Option.bind_eq_some_iff.1 hwu
    obtain ⟨m, hm, -⟩ := exists_node_of_mem_children (List.mem_iff_getElem?.2 ⟨j, hx⟩)
    obtain ⟨c, hc, hmem⟩ := exists_cell_of_mem_children hr (List.mem_iff_getElem?.2 ⟨i, hw⟩)
    have hlt : q.index < m.index := ih hm (Option.bind_eq_some_iff.2 ⟨u, hwu, hq⟩)
    exact Nat.lt_trans hlt (hs r (mem_refs_of_cell? hc) c hc w hmem m hm)

/-- A layered store has acyclic values only. -/
lemma Layered.acyclic (hs : s.Layered) (v : Value) : s.Acyclic v := by
  intro p q r hq hp hpq
  obtain ⟨i, q, rfl⟩ := List.exists_cons_of_ne_nil hq
  obtain ⟨u, hu, hr⟩ := Option.bind_eq_some_iff.1 hp
  rw [nodeAt, follow_append, hu] at hpq
  exact Nat.lt_irrefl _ (hs.index_lt hr hpq)

end Store

end Dynval
