import Dynval.Container
import Dynval.Proofs.Datum.Text
import Dynval.Proofs.Key.Entries
import Dynval.Proofs.Store.Below
import Dynval.Proofs.Subscript.Policy

/-!
# Writes to containers

A container is written to by subscript, leniently or strictly, and by the methods of its kind. Every
write leaves the store as it is, or gives the one container other contents, out of what it held and
what is written (`Write.rewrites_run`). What follows from this for two values that are apart does
not depend on the write: after any writes through the one, and any containers added in between, the
other is as it was, as long as nothing of it is put below the first.
-/

namespace Dynval

/-- A write to a container, by subscript or by a method. -/
inductive Write where
  | setIndex (policy : Policy) (index : Int64) (v : Value)
  | setItem (key v : Value)
  | setItemStrict (key v : Value)
  | push (v : Value)
  | insert (i : Nat) (v : Value)
  | extend (vs : List Value)
  | pop
  | replace (i : Nat) (v : Value)
  | clear
  | putEntry (k : Key) (v : Value)
  | removeEntry (k : Key)
  | pushByte (i : Int64)
  | popByte
  | replaceByte (i : Nat) (value : Int64)

namespace Write

def values : Write → List Value
  | setIndex _ _ v | setItem _ v | setItemStrict _ v | push v | insert _ v | replace _ v
  | putEntry _ v => [v]
  | extend vs => vs
  | pop | clear | removeEntry _ | pushByte _ | popByte | replaceByte _ _ => []

/-- The store after a write to a container. A method of another kind of container does nothing. -/
def run [FloatPrinter] (s : Store) : Value → Write → Store
  | c, setIndex policy index v => (Subscript.setWith policy c index v s).store
  | c, setItem key v => ((Subscript.setItem c key v : Action Fault Unit) s).store
  | c, setItemStrict key v => (Subscript.setItemStrict c key v s).store
  | .list r, push v => s.pushItem r v
  | .list r, insert i v => s.insertItem r i v
  | .list r, extend vs => s.extendItems r vs
  | .list r, pop => (s.popItem r).2
  | .list r, replace i v => (s.replaceItem r i v).2
  | .list r, clear => s.setItems r []
  | .map r, putEntry k v => (s.putEntry r k v).2
  | .map r, removeEntry k => (s.removeEntry r k).2
  | .byteArray r, pushByte i => s.pushByte r i
  | .byteArray r, popByte => (s.popByte r).2
  | .byteArray r, replaceByte i value => (s.replaceByte r i value).2
  | _, _ => s

end Write

/-! ### One write -/

/-- Whether a store is left as it is, or a container in it gets other contents, out of what it holds
and of given values. -/
def Store.Rewrites (s : Store) (c : Value) (vs : List Value) (t : Store) : Prop :=
  t = s ∨ ∃ r d, c.ref? = some r ∧ t = s.put r d ∧ ∀ v ∈ d.children, v ∈ s.children c ∨ v ∈ vs

namespace Store.Rewrites

variable {s : Store} {r : Ref} {vs : List Value}

lemma refl (s : Store) (c : Value) (vs : List Value) : s.Rewrites c vs s :=
  Or.inl rfl

/-- Replacing the elements of a list by old elements and given values rewrites it. -/
lemma setItems {items : List Value} (h : ∀ v ∈ items, v ∈ s.items r ∨ v ∈ vs) :
    s.Rewrites (.list r) vs (s.setItems r items) := by
  refine (s.setItems_cases r items).imp_right ?_
  rintro ⟨-, hput⟩
  exact ⟨r, .list items, rfl, hput, h⟩

lemma setEntries {es : Entries Value}
    (h : ∀ v ∈ es.map Prod.snd, v ∈ (s.entries r).map Prod.snd ∨ v ∈ vs) :
    s.Rewrites (.map r) vs (s.setEntries r es) := by
  refine (s.setEntries_cases r es).imp_right ?_
  rintro ⟨-, hput⟩
  exact ⟨r, .map es, rfl, hput, h⟩

lemma setData (data : List UInt8) : s.Rewrites (.byteArray r) vs (s.setData r data) := by
  refine (s.setData_cases r data).imp_right ?_
  rintro ⟨-, hput⟩
  exact ⟨r, .byteArray data, rfl, hput, by simp [Cell.children]⟩

/-- Replacing one element rewrites the list with the new element. -/
lemma setItem (p : Nat) (v : Value) : s.Rewrites (.list r) [v] (s.setItem r p v) := by
  refine setItems fun w hw => ?_
  rw [List.mem_singleton]
  exact List.mem_or_eq_of_mem_set hw

lemma setByte (p : Nat) (b : UInt8) : s.Rewrites (.byteArray r) vs (s.setByte r p b) :=
  setData _

/-- Storing under a key rewrites the map with the new value. -/
lemma setEntry (k : Key) (v : Value) : s.Rewrites (.map r) [v] (s.setEntry r k v) := by
  refine setEntries fun w hw => ?_
  rw [List.mem_singleton]
  exact Entries.mem_values_of_mem_insert hw

end Store.Rewrites

namespace Subscript

variable {ε : Type} (c : Value) (index : Int64) (key v : Value) (s : Store)

/-- A lenient write by subscript rewrites at most the container. -/
lemma rewrites_set : s.Rewrites c [v] ((set c index v : Action ε Unit) s).store := by
  cases c with
  | list r =>
    cases hp : position? index (s.items r).length with
    | none => simp [set, dropWrite, hp, Store.Rewrites.refl]
    | some p => simpa [set, hp] using Store.Rewrites.setItem p v
  | byteArray r =>
    cases hp : position? index (s.data r).length with
    | none => simp [set, dropWrite, hp, Store.Rewrites.refl]
    | some p =>
      simpa [set, hp, Value.asInt_apply, Action.bind_apply] using Store.Rewrites.setByte p _
  | map r => exact Store.Rewrites.setEntry _ v
  | _ => exact .refl s _ _

/-- A strict write by subscript rewrites at most the container, also where it fails. -/
lemma rewrites_setStrict [FloatPrinter] : s.Rewrites c [v] (setStrict c index v s).store := by
  obtain ⟨f, hf⟩ | hsame := setStrict_cases c index v s
  · rw [hf]
    exact .refl s _ _
  · rw [← hsame]
    exact rewrites_set c index v s

lemma rewrites_setWith [FloatPrinter] (policy : Policy) :
    s.Rewrites c [v] (setWith policy c index v s).store := by
  cases policy with
  | lenient => exact rewrites_set c index v s
  | strict => exact rewrites_setStrict c index v s

lemma rewrites_setItem : s.Rewrites c [v] ((setItem c key v : Action ε Unit) s).store := by
  cases c with
  | map r =>
    cases hkey : Key.ofValue? key with
    | none => simp [setItem, hkey, Store.Rewrites.refl]
    | some k => simpa [setItem, hkey] using Store.Rewrites.setEntry k v
  | _ => simpa [setItem, Value.asInt_apply, Action.bind_apply] using rewrites_set _ key.toInt v s

lemma rewrites_setItemStrict [FloatPrinter] : s.Rewrites c [v] (setItemStrict c key v s).store := by
  cases c with
  | map r =>
    cases hkey : Key.ofValue? key with
    | none => simp [setItemStrict, Key.ofValue, Action.bind_apply, hkey, Store.Rewrites.refl]
    | some k =>
      simpa [setItemStrict, Key.ofValue, Action.bind_apply, hkey] using Store.Rewrites.setEntry k v
  | _ =>
    cases hindex : key.integer? with
    | none => simp [setItemStrict, hindex, Store.Rewrites.refl]
    | some i => simpa [setItemStrict, hindex] using rewrites_setStrict _ i v s

end Subscript

/-- Every write gives at most the one container other contents, out of what it held and what is
written. -/
lemma Write.rewrites_run [FloatPrinter] (w : Write) (c : Value) (s : Store) :
    s.Rewrites c w.values (w.run s c) := by
  cases w with
  | setIndex policy index v => exact Subscript.rewrites_setWith c index v s policy
  | setItem key v => exact Subscript.rewrites_setItem c key v s
  | setItemStrict key v => exact Subscript.rewrites_setItemStrict c key v s
  | putEntry k v =>
    cases c with
    | map r => exact .setEntry k v
    | _ => exact .refl s _ _
  | removeEntry k =>
    cases c with
    | map r =>
      exact .setEntries fun v hv => Or.inl (((Entries.erase_sublist k _).map Prod.snd).subset hv)
    | _ => exact .refl s _ _
  | pushByte i | popByte | replaceByte i value =>
    cases c with
    | byteArray r => exact .setData _
    | _ => exact .refl s _ _
  | replace i v =>
    cases c with
    | list r => exact .setItem i v
    | _ => exact .refl s _ _
  | push v | extend vs =>
    cases c with
    | list r => exact .setItems fun v hv => List.mem_append.1 hv
    | _ => exact .refl s _ _
  | insert i v =>
    cases c with
    | list r =>
      refine .setItems fun w hw => ?_
      rw [List.mem_insertIdx (Nat.min_le_right _ _)] at hw
      simpa [values, or_comm] using hw
    | _ => exact .refl s _ _
  | pop =>
    cases c with
    | list r => exact .setItems fun v hv => Or.inl ((List.dropLast_sublist _).subset hv)
    | _ => exact .refl s _ _
  | clear =>
    cases c with
    | list r => exact .setItems (by simp)
    | _ => exact .refl s _ _

namespace Store

variable {t u u' : Store} {x y z c : Value} {vs : List Value} {p : List Nat}

/-! ### Paths after a write -/

/-- What is below a value after a container below it gets other contents was below it before, or is
below one of the values put in. -/
lemma exists_follow_of_put {r : Ref} {d : Cell} {q : List Nat} (hc : u.follow x q = some c)
    (hd : ∀ v ∈ d.children, v ∈ u.children c ∨ v ∈ vs) (h : (u.put r d).follow x p = some z) :
    ∃ a ∈ x :: vs, ∃ q, u.follow a q = some z := by
  refine mem_of_follow (S := fun z => ∃ a ∈ x :: vs, ∃ q, u.follow a q = some z) ?_
    ⟨x, List.mem_cons_self, [], rfl⟩ h
  rintro v ⟨a, ha, q', hv⟩ w hw
  by_cases hr : v.node? = some r
  · -- what the container holds now it held before, or it was put in
    obtain ⟨d', hcell, hw⟩ := exists_cell_of_mem_children hr hw
    have hlt := index_lt_of_cell? hcell
    rw [cell?_put_self d (by simpa using hlt)] at hcell
    obtain rfl := Option.some.inj hcell
    rcases hd w hw with hw | hw
    · obtain ⟨i, hi⟩ := List.mem_iff_getElem?.1 hw
      exact ⟨x, List.mem_cons_self, q ++ [i], (follow_concat hc i).trans hi⟩
    · exact ⟨w, List.mem_cons_of_mem x hw, [], rfl⟩
  · have hchildren : (u.put r d).children v = u.children v := by
      obtain ⟨r', hr', -⟩ := exists_node_of_mem_children hw
      have hne : r' ≠ r := by
        rintro rfl
        exact hr hr'
      refine children_congr fun r'' hr'' => ?_
      obtain rfl : r' = r'' := Option.some.inj ((Value.ref?_of_node? hr').symm.trans hr'')
      exact cell?_put_of_ne d hne
    rw [hchildren] at hw
    obtain ⟨i, hi⟩ := List.mem_iff_getElem?.1 hw
    exact ⟨a, ha, q' ++ [i], (follow_concat hv i).trans hi⟩

/-! ### Runs of writes -/

/-- The stores after writes to containers, with containers added in between. Each write is
one that is allowed in the store at the time. -/
inductive Written [FloatPrinter] (allowed : Store → Value → Write → Prop) (t : Store) : Store → Prop
  | refl : Written allowed t t
  | add {u u' : Store} (h : Written allowed t u) (hadd : u.Extends u') : Written allowed t u'
  | write {u : Store} (h : Written allowed t u) {c : Value} {w : Write} (hw : allowed u c w) :
    Written allowed t (w.run u c)

/-- Writes to the containers that are below a value in `t`, or that are not in `t`. -/
def Into (t : Store) (x : Value) (_ : Store) (c : Value) (_ : Write) : Prop :=
  ∀ r, c.ref? = some r → t.size ≤ r.index ∨ ∃ p, t.refAt x p = some r

/-- Writes to the containers that are below a value at the time, where nothing of `y` is written. -/
def Through (x y : Value) (u : Store) (c : Value) (w : Write) : Prop :=
  (∃ p, u.follow x p = some c) ∧ ∀ v ∈ w.values, u.Inside v ∧ u.Apart v y

/-- The invariant of writes into the containers of a value that `y` is apart from. -/
lemma Written.into [FloatPrinter] (hu : t.Written (t.Into x) u) (hy : t.Inside y)
    (hxy : t.Apart x y) : t.size ≤ u.size ∧ t.Keeps u y := by
  induction hu with
  | refl => exact ⟨Nat.le_refl _, .refl t y⟩
  | add _ hadd ih =>
    have hinside := ih.2.inside hy ih.1
    exact ⟨Nat.le_trans ih.1 hadd.size, ih.2.trans (hadd.keeps hinside)⟩
  | @write u _ c w hw ih =>
    rcases w.rewrites_run c u with hsame | ⟨r, d, hr, hput, -⟩
    · rw [hsame]
      exact ih
    · rw [hput, size_put]
      refine ⟨ih.1, ih.2.put (fun p hp => ?_) d⟩
      rcases hw r hr with hnew | ⟨q, hq⟩
      · exact absurd (hy p r hp) (Nat.not_lt.2 hnew)
      · exact hxy q p r hq hp

/-- The invariant of writes through a value that `y` is apart from: it stays apart, and what was
below `y` in `t` is as it was. -/
structure Detached (t : Store) (x y : Value) (u : Store) : Prop where
  inside : u.Inside x
  insideOther : u.Inside y
  apart : u.Apart x y
  keeps : t.Keeps u y

namespace Detached

/-- New containers are below neither of two values, so they stay apart. -/
lemma add (h : Detached t x y u) (hadd : u.Extends u') : Detached t x y u' where
  inside := h.inside.later hadd
  insideOther := h.insideOther.later hadd
  apart := h.apart.later h.inside h.insideOther hadd
  keeps := h.keeps.trans (hadd.keeps h.insideOther)

/-- A write through a value to which nothing of `y` is written leaves `y` apart from it. -/
lemma write [FloatPrinter] (h : Detached t x y u) {w : Write} (hw : Through x y u c w) :
    Detached t x y (w.run u c) := by
  obtain ⟨⟨q, hc⟩, hvalues⟩ := hw
  rcases w.rewrites_run c u with hsame | ⟨r, d, hr, hput, hd⟩
  · rw [hsame]
    exact h
  · have hkeeps : u.Keeps (u.put r d) y :=
      (Keeps.refl u y).put (fun p => h.apart q p r ((refAt_of_follow hc).trans hr)) d
    -- what is below `x` now was below it, or below a value that is apart from `y` as well
    have hbelow : ∀ {p r'}, (u.put r d).refAt x p = some r' →
        r'.index < u.size ∧ ∀ p', u.refAt y p' ≠ some r' := by
      intro p r' hr'
      obtain ⟨z, hz, hzr⟩ := Option.bind_eq_some_iff.1 hr'
      obtain ⟨a, ha, p', hp'⟩ := exists_follow_of_put hc hd hz
      have href := (refAt_of_follow hp').trans hzr
      have hsep : u.Inside a ∧ u.Apart a y := by
        rcases List.mem_cons.1 ha with rfl | ha
        · exact ⟨h.inside, h.apart⟩
        · exact hvalues a ha
      exact ⟨hsep.1 p' r' href, fun q' => hsep.2 p' q' r' href⟩
    rw [hput]
    refine ⟨fun p r' hr' => ?_, ?_, fun p q' r' hp hq => ?_, h.keeps.trans hkeeps⟩
    · rw [size_put]
      exact (hbelow hr').1
    · exact hkeeps.inside h.insideOther (size_put u r d).ge
    · rw [hkeeps.refAt] at hq
      exact (hbelow hp).2 q' hq

end Detached

/-- The run lemma: writes through `x` never come to anything below `y`. -/
lemma Written.through [FloatPrinter] (hu : t.Written (Through x y) u) (hx : t.Inside x)
    (hy : t.Inside y) (hxy : t.Apart x y) : Detached t x y u := by
  induction hu with
  | refl => exact ⟨hx, hy, hxy, .refl t y⟩
  | add _ hadd ih => exact ih.add hadd
  | write _ hw ih => exact ih.write hw

/-- Writes into the containers of a value, or through it, keep what is below a value that it is
apart from. -/
lemma Written.keeps [FloatPrinter] (hu : t.Written (t.Into x) u ∨ t.Written (Through x y) u)
    (hx : t.Inside x) (hy : t.Inside y) (hxy : t.Apart x y) : t.Keeps u y := by
  rcases hu with hu | hu
  · exact (hu.into hy hxy).2
  · exact (hu.through hx hy hxy).keeps

/-- A text depends only on what is below its value. -/
lemma Keeps.repr [FloatPrinter] (h : t.Keeps u y) : y.repr u = y.repr t :=
  Value.repr_eq_of_view_eq h.view

end Store

end Dynval
