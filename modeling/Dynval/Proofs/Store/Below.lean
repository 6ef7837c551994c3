import Dynval.Proofs.Action.Basic
import Dynval.Proofs.Store.Rename

/-!
# What is below a value

The containers below a value are the ends of the paths from it (`refAt`), and they are all that can
be seen of it: as long as another store has them as they are (`Keeps`), the paths, the labels and
the datum of the value are the same there. Adding containers keeps what is below a value all of
whose containers are in the store.
-/

namespace Dynval

namespace Store

variable {t u : Store} {w x : Value} {r : Ref} {p : List Nat}

/-! ### Containers below a value -/

lemma refAt_nil (t : Store) (w : Value) : t.refAt w [] = w.ref? := rfl

lemma refAt_cons (t : Store) (w : Value) (i : Nat) (p : List Nat) :
    t.refAt w (i :: p) = (t.children w)[i]?.bind fun x => t.refAt x p := by
  rw [refAt, follow_cons, Option.bind_assoc]
  rfl

/-- From a value with nothing below it only the empty path leads to a container. -/
lemma refAt_leaf (hw : w.node? = none) (h : t.refAt w p = some r) : p = [] ∧ w.ref? = some r := by
  cases p with
  | nil => exact ⟨rfl, h⟩
  | cons i p =>
    rw [refAt_cons, children_eq_nil hw] at h
    cases h

/-- What holds of a value, and of everything one step below whatever it holds of, holds at the ends
of all paths. -/
lemma mem_of_follow {S : Value → Prop} (hS : ∀ v, S v → ∀ w ∈ t.children v, S w) (hw : S w)
    (h : t.follow w p = some x) : S x := by
  induction p generalizing w with
  | nil =>
    obtain rfl := Option.some.inj h
    exact hw
  | cons i p ih =>
    obtain ⟨v, hv, h⟩ := Option.bind_eq_some_iff.1 h
    exact ih (hS w hw v (List.mem_of_getElem? hv)) h

/-- Whether all containers below a value are in the store. -/
def Inside (t : Store) (w : Value) : Prop :=
  ∀ p r, t.refAt w p = some r → r.index < t.size

/-- What is below a value of the store is in the store. -/
lemma Inside.follow (h : t.Inside w) (hp : t.follow w p = some x) : t.Inside x := by
  intro q r hr
  refine h (p ++ q) r ?_
  rw [refAt, follow_append, hp]
  exact hr

lemma Inside.child {i : Nat} (h : t.Inside w) (hi : (t.children w)[i]? = some x) : t.Inside x := by
  refine h.follow (p := [i]) ?_
  rw [follow_cons, hi]
  rfl

/-- Whether containers hold only containers of the store. -/
def Closed (t : Store) : Prop :=
  ∀ r ∈ t.refs, ∀ c ∈ t.cell? r, ∀ w ∈ c.children, ∀ q ∈ w.ref?, q.index < t.size

instance (t : Store) : Decidable t.Closed :=
  inferInstanceAs (Decidable (∀ r ∈ t.refs, ∀ c ∈ t.cell? r, ∀ w ∈ c.children, ∀ q ∈ w.ref?,
    q.index < t.size))

/-- In a closed store all values that refer to a container of the store are inside. -/
lemma Closed.inside (ht : t.Closed) (hw : ∀ q ∈ w.ref?, q.index < t.size) : t.Inside w := by
  intro p r hr
  obtain ⟨x, hx, hxr⟩ := Option.bind_eq_some_iff.1 hr
  refine mem_of_follow (S := fun x => ∀ q ∈ x.ref?, q.index < t.size) ?_ hw hx r hxr
  intro v _ x hx
  obtain ⟨q, c, -, hc, hchildren⟩ := exists_cell_children_eq hx
  exact ht q (mem_refs_of_cell? hc) c hc x (hchildren ▸ hx)

/-- Whether no container is below both of two values. -/
def Apart (t : Store) (w x : Value) : Prop :=
  ∀ p q r, t.refAt w p = some r → t.refAt x q ≠ some r

lemma Apart.symm (h : t.Apart w x) : t.Apart x w :=
  fun p q r hp hq => h q p r hq hp

/-! ### Kept containers -/

section

variable (h : ∀ r, w.ref? = some r → u.cell? r = t.cell? r)

include h

lemma children_congr : u.children w = t.children w := by
  cases w with
  | list r => simp only [children, items, h r rfl]
  | map r => simp only [children, entries, h r rfl]
  | _ => rfl

lemma label_congr : u.label w = t.label w := by
  cases w with
  | list r => simp only [label, items, h r rfl]
  | map r => simp only [label, entries, h r rfl]
  | byteArray r => simp only [label, data, h r rfl]
  | _ => rfl

end

/-- Whether another store has the containers below a value as they are. -/
def Keeps (t u : Store) (w : Value) : Prop :=
  ∀ p r, t.refAt w p = some r → u.cell? r = t.cell? r

namespace Keeps

lemma refl (t : Store) (w : Value) : t.Keeps t w :=
  fun _ _ _ => rfl

variable (h : t.Keeps u w)

include h

lemma child {i : Nat} (hi : (t.children w)[i]? = some x) : t.Keeps u x := by
  intro p r hr
  refine h (i :: p) r ?_
  rw [refAt_cons, hi]
  exact hr

lemma children : u.children w = t.children w :=
  children_congr (h [])

lemma label : u.label w = t.label w :=
  label_congr (h [])

/-- A path leads to the same value as long as what is below its start is kept. -/
lemma follow (p : List Nat) : u.follow w p = t.follow w p := by
  induction p generalizing w with
  | nil => rfl
  | cons i p ih =>
    rw [follow_cons, follow_cons, h.children]
    cases hx : (t.children w)[i]? with
    | none => rfl
    | some x => exact ih (h.child hx)

lemma refAt (p : List Nat) : u.refAt w p = t.refAt w p := by
  rw [Store.refAt, Store.refAt, h.follow]

lemma inside (hw : t.Inside w) (hsize : t.size ≤ u.size) : u.Inside w := by
  intro p r hr
  rw [h.refAt] at hr
  exact Nat.lt_of_lt_of_le (hw p r hr) hsize

/-- Other contents of a container that is not below the value. -/
lemma put {q : Ref} (hq : ∀ p, t.refAt w p ≠ some q) (c : Cell) : t.Keeps (u.put q c) w := by
  intro p r hr
  have hne : r ≠ q := by
    rintro rfl
    exact hq p hr
  rw [cell?_put_of_ne c hne, h p r hr]

lemma trans {u' : Store} (h' : u.Keeps u' w) : t.Keeps u' w := by
  intro p r hr
  rw [h' p r ((h.refAt p).trans hr), h p r hr]

/-- What is kept below a value is all that its datum shows. -/
lemma view : w.view u = w.view t := by
  have hbisim : t.Bisimulation u fun a b => a = b ∧ t.Keeps u a := by
    refine ⟨?_, ?_, ?_⟩
    · rintro a _ ⟨rfl, ha⟩
      exact ha.label.symm
    · rintro a _ ⟨rfl, ha⟩
      rw [ha.children, List.forall₂_same]
      intro b hb
      obtain ⟨i, hi⟩ := List.mem_iff_getElem?.1 hb
      exact ⟨rfl, ha.child hi⟩
    · rintro a _ b _ ⟨rfl, -⟩ ⟨rfl, -⟩
      rfl
  exact (hbisim.view_eq ⟨rfl, h⟩).symm

end Keeps

/-! ### Later stores -/

/-- A later store keeps everything below its old values. -/
lemma Extends.keeps (h : t.Extends u) (hw : t.Inside w) : t.Keeps u w :=
  fun p r hr => h.cell? r (hw p r hr)

lemma Extends.label (h : t.Extends u) (hw : t.Inside w) : u.label w = t.label w :=
  (h.keeps hw).label

lemma Extends.follow (h : t.Extends u) (hw : t.Inside w) (p : List Nat) :
    u.follow w p = t.follow w p :=
  (h.keeps hw).follow p

lemma Extends.refAt (h : t.Extends u) (hw : t.Inside w) (p : List Nat) :
    u.refAt w p = t.refAt w p :=
  (h.keeps hw).refAt p

lemma Inside.later (h : t.Inside w) (htu : t.Extends u) : u.Inside w :=
  (htu.keeps h).inside h htu.size

/-- Values that are apart stay apart when containers are added. -/
lemma Apart.later (h : t.Apart w x) (hw : t.Inside w) (hx : t.Inside x) (htu : t.Extends u) :
    u.Apart w x := by
  intro p q r hp hq
  rw [htu.refAt hw] at hp
  rw [htu.refAt hx] at hq
  exact h p q r hp hq

end Store

end Dynval
