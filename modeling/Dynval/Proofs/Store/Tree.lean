import Dynval.Proofs.Store.Above
import Dynval.Proofs.Store.Below

/-!
# Trees in a store

What is below a value is a tree when every container there is in the store and is reached by one
path. Trees stay trees when containers are added behind them and when they are moved behind other
containers, and a new container over trees that share nothing is a tree.
-/

namespace Dynval

namespace Store

variable {s t u : Store} {f : Ref → Ref} {v w x : Value} {r : Ref} {p : List Nat}

/-! ### Paths in stores above another -/

/-- A store is left as it is below another one. -/
lemma extends_above (t u : Store) : t.Extends (t.above u) := by
  refine ⟨by simp, fun r hr => ?_⟩
  simp only [cell?, above, size] at hr ⊢
  exact Array.getElem?_append_left hr

namespace Embeds

variable (h : s.Embeds t f)

include h

lemma label (w : Value) : t.label (w.rename f) = s.label w :=
  label_rename fun r _ => h.cell? r

lemma children (w : Value) : t.children (w.rename f) = (s.children w).map (Value.rename f) :=
  children_rename fun r _ => h.cell? r

/-- Paths lead to renamed values. -/
lemma follow (w : Value) (p : List Nat) :
    t.follow (w.rename f) p = (s.follow w p).map (Value.rename f) := by
  induction p generalizing w with
  | nil => rfl
  | cons i p ih =>
    rw [follow_cons, follow_cons, h.children, List.getElem?_map]
    cases (s.children w)[i]? with
    | none => rfl
    | some x => exact ih x

lemma refAt (w : Value) (p : List Nat) : t.refAt (w.rename f) p = (s.refAt w p).map f := by
  rw [Store.refAt, Store.refAt, h.follow]
  cases s.follow w p with
  | none => rfl
  | some x => cases x <;> rfl

end Embeds

/-! ### Shapes -/

/-- Whether every path leads to the same label from two values, or nowhere from both. -/
def SameShape (s : Store) (v : Value) (t : Store) (w : Value) : Prop :=
  ∀ p, (s.follow v p).map s.label = (t.follow w p).map t.label

namespace SameShape

lemma later (h : s.SameShape v t w) (hw : t.Inside w) (htu : t.Extends u) :
    s.SameShape v u w := by
  intro p
  rw [h p, htu.follow hw]
  cases hx : t.follow w p with
  | none => rfl
  | some x => exact congrArg some (htu.label (hw.follow hx)).symm

/-- The shape of a value does not change above a store. -/
lemma move (h : s.SameShape v t w) (base : Store) :
    s.SameShape v (base.above t) (base.move w) := by
  intro p
  rw [h p, (base.embeds_above t).follow, Option.map_map]
  congr 1
  funext x
  exact ((base.embeds_above t).label x).symm

/-- A shape is a label over the shapes one step below. -/
lemma node (hlabel : s.label v = t.label w)
    (hchildren : List.Forall₂ (fun a b => s.SameShape a t b) (s.children v) (t.children w)) :
    s.SameShape v t w := by
  intro p
  cases p with
  | nil => exact congrArg some hlabel
  | cons i p =>
    rw [follow_cons, follow_cons]
    by_cases hi : i < (s.children v).length
    · have hi' : i < (t.children w).length := hchildren.length_eq ▸ hi
      rw [List.getElem?_eq_getElem hi, List.getElem?_eq_getElem hi']
      exact hchildren.get hi hi' p
    · have hi' : ¬ i < (t.children w).length := hchildren.length_eq ▸ hi
      rw [List.getElem?_eq_none (Nat.le_of_not_lt hi), List.getElem?_eq_none (Nat.le_of_not_lt hi')]
      rfl

lemma leaf (hlabel : s.label v = t.label w) (hv : v.node? = none) (hw : w.node? = none) :
    s.SameShape v t w := by
  refine node hlabel ?_
  rw [children_eq_nil hv, children_eq_nil hw]
  exact .nil

end SameShape

/-! ### Trees -/

/-- Whether all containers below a value are in the store and reached by one path each. -/
structure IsTree (t : Store) (w : Value) : Prop where
  inside : t.Inside w
  unique : ∀ {p q r}, t.refAt w p = some r → t.refAt w q = some r → p = q

namespace IsTree

lemma leaf (hw : w.node? = none) (hin : ∀ r, w.ref? = some r → r.index < t.size) :
    t.IsTree w := by
  refine ⟨fun p r hr => hin r (refAt_leaf hw hr).2, fun hp hq => ?_⟩
  rw [(refAt_leaf hw hp).1, (refAt_leaf hw hq).1]

lemma later (h : t.IsTree w) (htu : t.Extends u) : u.IsTree w := by
  refine ⟨h.inside.later htu, fun hp hq => ?_⟩
  rw [htu.refAt h.inside] at hp hq
  exact h.unique hp hq

lemma move (h : t.IsTree w) (base : Store) : (base.above t).IsTree (base.move w) := by
  have href := (base.embeds_above t).refAt w
  refine ⟨fun p r hr => ?_, fun {p q r} hp hq => ?_⟩
  · rw [href, Option.map_eq_some_iff] at hr
    obtain ⟨r', hr', rfl⟩ := hr
    rw [size_above]
    exact Nat.add_lt_add_left (h.inside p r' hr') _
  · rw [href, Option.map_eq_some_iff] at hp hq
    obtain ⟨r', hp, rfl⟩ := hp
    obtain ⟨r'', hq, heq⟩ := hq
    rw [Ref.shift_injective _ heq] at hq
    exact h.unique hp hq

/-- A tree and what is moved behind it share nothing. -/
lemma apart (h : t.IsTree w) (u : Store) (x : Value) : (t.above u).Apart w (t.move x) := by
  intro p q r hp hq
  rw [(extends_above t u).refAt h.inside] at hp
  rw [(t.embeds_above u).refAt, Option.map_eq_some_iff] at hq
  obtain ⟨r', -, rfl⟩ := hq
  exact absurd (h.inside p _ hp) (Nat.not_lt.2 (Nat.le_add_right _ _))

end IsTree

/-- Values that are apart are so above a store. -/
lemma Apart.move (h : t.Apart w x) (base : Store) :
    (base.above t).Apart (base.move w) (base.move x) := by
  intro p q r hp hq
  rw [(base.embeds_above t).refAt, Option.map_eq_some_iff] at hp hq
  obtain ⟨r', hp, rfl⟩ := hp
  obtain ⟨r'', hq, heq⟩ := hq
  rw [Ref.shift_injective _ heq] at hq
  exact h p q r' hp hq

structure IsForest (t : Store) (ws : List Value) : Prop where
  tree : ∀ w ∈ ws, t.IsTree w
  apart : ws.Pairwise t.Apart

namespace IsForest

lemma nil (t : Store) : t.IsForest [] :=
  ⟨by simp, .nil⟩

/-- No container is below two of the values, or twice below one of them. -/
lemma unique {ws : List Value} (h : t.IsForest ws) {i j : Nat} {q : List Nat}
    (hw : ws[i]? = some w) (hx : ws[j]? = some x) (hp : t.refAt w p = some r)
    (hq : t.refAt x q = some r) : i = j ∧ p = q := by
  obtain ⟨hi, rfl⟩ := List.getElem?_eq_some_iff.1 hw
  obtain ⟨hj, rfl⟩ := List.getElem?_eq_some_iff.1 hx
  have hapart := List.pairwise_iff_getElem.1 h.apart
  rcases Nat.lt_trichotomy i j with hlt | rfl | hgt
  · exact absurd hq (hapart i j hi hj hlt p q r hp)
  · exact ⟨rfl, (h.tree _ (List.getElem_mem hi)).unique hp hq⟩
  · exact absurd hp (hapart j i hj hi hgt q p r hq)

/-- A tree before trees that are moved behind it. -/
lemma cons {ws : List Value} (hw : t.IsTree w) (hws : u.IsForest ws) :
    (t.above u).IsForest (w :: ws.map t.move) := by
  refine ⟨List.forall_mem_cons.2 ⟨hw.later (extends_above t u), ?_⟩, ?_⟩
  · exact List.forall_mem_map.2 fun x hx => (hws.tree x hx).move t
  · refine List.pairwise_cons.2 ⟨List.forall_mem_map.2 fun x _ => hw.apart u x, ?_⟩
    exact List.Pairwise.map t.move (fun _ _ h => h.move t) hws.apart

/-- A new container over a forest is a tree. -/
lemma alloc {ws : List Value} (h : t.IsForest ws) {c : Cell} (hw : w.ref? = some ⟨t.size⟩)
    (hchildren : (t.alloc c).2.children w = ws) : (t.alloc c).2.IsTree w := by
  have hlater := Extends.alloc t c
  -- the new container is at the end of the empty path only, all others are below one child
  have hcons : ∀ {i p r}, (t.alloc c).2.refAt w (i :: p) = some r →
      ∃ x, ws[i]? = some x ∧ t.refAt x p = some r := by
    intro i p r hr
    rw [refAt_cons, hchildren] at hr
    obtain ⟨x, hx, hr⟩ := Option.bind_eq_some_iff.1 hr
    rw [hlater.refAt (h.tree x (List.mem_of_getElem? hx)).inside] at hr
    exact ⟨x, hx, hr⟩
  have hbelow : ∀ {i p r}, (t.alloc c).2.refAt w (i :: p) = some r → r.index < t.size := by
    intro i p r hr
    obtain ⟨x, hx, hr⟩ := hcons hr
    exact (h.tree x (List.mem_of_getElem? hx)).inside p r hr
  refine ⟨fun p r hr => ?_, fun {p q r} hp hq => ?_⟩
  · rw [size_alloc]
    cases p with
    | nil =>
      rw [refAt_nil, hw] at hr
      cases hr
      exact Nat.lt_succ_self _
    | cons i p => exact Nat.lt_succ_of_lt (hbelow hr)
  · have hroot : ∀ {i p}, w.ref? = some r → (t.alloc c).2.refAt w (i :: p) ≠ some r := by
      intro i p hr hp
      rw [hw] at hr
      cases hr
      exact Nat.lt_irrefl _ (hbelow hp)
    cases p with
    | nil =>
      cases q with
      | nil => rfl
      | cons j q => exact absurd hq (hroot hp)
    | cons i p =>
      cases q with
      | nil => exact absurd hp (hroot hq)
      | cons j q =>
        obtain ⟨x, hx, hp⟩ := hcons hp
        obtain ⟨y, hy, hq⟩ := hcons hq
        obtain ⟨rfl, rfl⟩ := h.unique hx hy hp hq
        rfl

/-- A new container over a forest has the shape of what has its label over the same shapes. -/
lemma sameShape_alloc {ws : List Value} (h : t.IsForest ws) {c : Cell}
    (hchildren : (t.alloc c).2.children w = ws) (hlabel : s.label v = (t.alloc c).2.label w)
    (hshapes : List.Forall₂ (fun a b => s.SameShape a t b) (s.children v) ws) :
    s.SameShape v (t.alloc c).2 w := by
  refine .node hlabel ?_
  rw [hchildren]
  exact forall₂_imp_of_mem hshapes fun a _ b hb hab =>
    hab.later (h.tree b hb).inside (Extends.alloc t c)

end IsForest

end Store

end Dynval
