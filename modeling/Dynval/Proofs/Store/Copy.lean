import Dynval.Proofs.Datum.Text
import Dynval.Proofs.Store.Basic
import Dynval.Proofs.Store.Bisimulation

/-!
# Deep copies are detached and isomorphic

While a copy is under way, the copies of some lists and maps are still empty: those whose elements
are being copied. `Copying.Sound` is the invariant with these containers in `opened`: all others
that were met have copies filled with copies. A step of the copy keeps the invariant and changes no
container that was there before it (`Copying.Extends`). When nothing is open any more, `IsCopy` is
a bisimulation between the old store and the new one.
-/

namespace Dynval

namespace Copying

variable {s : Store} {c d : Copying} {opened : List Ref} {v w : Value} {r q : Ref}

/-- A later stage of a copy: nothing met is forgotten, and no container that was there before is
changed. -/
structure Extends (c d : Copying) : Prop where
  memo : c.memo ⊆ d.memo
  size : c.store.size ≤ d.store.size
  cell? : ∀ r : Ref, r.index < c.store.size → d.store.cell? r = c.store.cell? r

/-- Whether a value of the new store is the copy of a value of `s`. -/
inductive IsCopy (s : Store) (c : Copying) : Value → Value → Prop where
  | node {v : Value} {r q : Ref} (hv : v.node? = some r) (hmemo : (r, q) ∈ c.memo) :
      IsCopy s c v (v.withRef q)
  | byteArray {r q : Ref} (hnew : s.size ≤ q.index)
      (hcell : c.store.cell? q = some (.byteArray (s.data r))) :
      IsCopy s c (.byteArray r) (.byteArray q)
  | scalar {v : Value} (hv : v.ref? = none) : IsCopy s c v v

/-- Whether a container of the new store holds copies of what a container of `s` holds. -/
def Filled (s : Store) (c : Copying) (r q : Ref) : Prop :=
  ∃ children, List.Forall₂ (IsCopy s c) (s.contents r).children children ∧
    c.store.cell? q = some ((s.contents r).withChildren children)

/-- The invariant of a copy under way: old containers are as they were, copies are new and one to
one, and all copies but the opened ones are filled. -/
structure Sound (s : Store) (opened : List Ref) (c : Copying) : Prop where
  size : s.size ≤ c.store.size
  cell? : ∀ r : Ref, r.index < s.size → c.store.cell? r = s.cell? r
  fresh : ∀ p ∈ c.memo, s.size ≤ p.2.index ∧ p.2.index < c.store.size
  oneToOne : ∀ p ∈ c.memo, ∀ p' ∈ c.memo, p.1 = p'.1 ↔ p.2 = p'.2
  filled : ∀ p ∈ c.memo, p.1 ∉ opened → Filled s c p.1 p.2

/-! ### Later stages -/

lemma Extends.refl (c : Copying) : Extends c c :=
  ⟨fun _ h => h, Nat.le_refl _, fun _ _ => rfl⟩

lemma Extends.trans {e : Copying} (h : Extends c d) (h' : Extends d e) : Extends c e :=
  ⟨fun _ hp => h'.memo (h.memo hp), Nat.le_trans h.size h'.size, fun r hr =>
    (h'.cell? r (Nat.lt_of_lt_of_le hr h.size)).trans (h.cell? r hr)⟩

lemma Extends.cell?_eq_some (h : Extends c d) {cell : Cell} (hr : c.store.cell? r = some cell) :
    d.store.cell? r = some cell :=
  (h.cell? r (Store.index_lt_of_cell? hr)).trans hr

/-- A copy stays one when more is met. -/
lemma IsCopy.mono (h : IsCopy s c v w) (hmemo : c.memo ⊆ d.memo)
    (hbytes : ∀ q data, c.store.cell? q = some (.byteArray data) →
      d.store.cell? q = some (.byteArray data)) : IsCopy s d v w := by
  cases h with
  | node hv hq => exact .node hv (hmemo hq)
  | byteArray hnew hcell => exact .byteArray hnew (hbytes _ _ hcell)
  | scalar hv => exact .scalar hv

lemma IsCopy.extends (hcd : Extends c d) (h : IsCopy s c v w) : IsCopy s d v w :=
  h.mono hcd.memo fun _ _ hq => hcd.cell?_eq_some hq

lemma Filled.extends (hcd : Extends c d) (h : Filled s c r q) : Filled s d r q := by
  obtain ⟨children, hchildren, hcell⟩ := h
  exact ⟨children, hchildren.imp fun _ _ => IsCopy.extends hcd, hcd.cell?_eq_some hcell⟩

/-- Allocating leads to a later stage. -/
lemma extends_alloc {memo : List (Ref × Ref)} (hmemo : c.memo ⊆ memo) (cell : Cell) :
    Extends c ⟨(c.store.alloc cell).2, memo⟩ := by
  refine ⟨hmemo, ?_, fun r hr => Store.cell?_alloc_of_lt cell hr⟩
  rw [Store.size_alloc]
  exact Nat.le_succ _

/-! ### One step of a copy keeps the invariant -/

/-- At the start nothing has been copied. -/
lemma Sound.start (s : Store) : Sound s [] ⟨s, []⟩ where
  size := Nat.le_refl _
  cell? _ _ := rfl
  fresh := by simp
  oneToOne := by simp
  filled := by simp

lemma Sound.cell?_extends (hc : Sound s opened c) (hcd : Extends c d) (hr : r.index < s.size) :
    d.store.cell? r = s.cell? r :=
  (hcd.cell? r (Nat.lt_of_lt_of_le hr hc.size)).trans (hc.cell? r hr)

/-- A later stage that has met nothing new. -/
lemma Sound.extends (hc : Sound s opened c) (hcd : Extends c d) (hmemo : d.memo = c.memo) :
    Sound s opened d where
  size := Nat.le_trans hc.size hcd.size
  cell? r hr := hc.cell?_extends hcd hr
  fresh p hp := by
    obtain ⟨hnew, hlt⟩ := hc.fresh p (hmemo ▸ hp)
    exact ⟨hnew, Nat.lt_of_lt_of_le hlt hcd.size⟩
  oneToOne p hp p' hp' := hc.oneToOne p (hmemo ▸ hp) p' (hmemo ▸ hp')
  filled p hp hopen := (hc.filled p (hmemo ▸ hp) hopen).extends hcd

lemma extends_leaf (s : Store) (c : Copying) (v : Value) : Extends c (c.leaf s v).2 := by
  cases v with
  | byteArray r => exact extends_alloc (fun _ h => h) _
  | _ => exact .refl c

/-- Copying a value with nothing below it keeps the invariant. -/
lemma Sound.leaf (hc : Sound s opened c) (v : Value) : Sound s opened (c.leaf s v).2 := by
  refine hc.extends (extends_leaf s c v) ?_
  cases v <;> rfl

/-- A value with nothing below it is copied at once. -/
lemma isCopy_leaf (hc : Sound s opened c) (hv : v.node? = none) :
    IsCopy s (c.leaf s v).2 v (c.leaf s v).1 := by
  cases v with
  | list r | map r => simp [Value.node?] at hv
  | byteArray r => exact .byteArray hc.size (Store.cell?_alloc_self _ _)
  | _ => exact .scalar rfl

lemma extends_enter (c : Copying) (r : Ref) (cell : Cell) : Extends c (c.enter r cell) :=
  extends_alloc (List.subset_cons_self _ _) _

lemma cell?_enter (c : Copying) (r : Ref) (cell : Cell) :
    (c.enter r cell).store.cell? c.next = some (cell.withChildren []) :=
  Store.cell?_alloc_self _ _

/-- A list or map that is met is open until its copy is filled. -/
lemma Sound.enter (hc : Sound s opened c) (hr : r ∉ c.met) (cell : Cell) :
    Sound s (r :: opened) (c.enter r cell) := by
  have hcd := extends_enter c r cell
  have hnew : ∀ p ∈ c.memo, ¬ r = p.1 ∧ ¬ c.next = p.2 := by
    intro p hp
    refine ⟨?_, ?_⟩
    · rintro rfl
      exact hr (List.mem_map_of_mem hp)
    · intro heq
      exact absurd (hc.fresh p hp).2 (heq ▸ Nat.lt_irrefl _)
  refine ⟨Nat.le_trans hc.size hcd.size, fun q hq => hc.cell?_extends hcd hq, ?_, ?_, ?_⟩
  · intro p hp
    rcases List.mem_cons.1 hp with rfl | hp
    · exact ⟨hc.size, by simp [Copying.enter, next]⟩
    · obtain ⟨hle, hlt⟩ := hc.fresh p hp
      exact ⟨hle, Nat.lt_of_lt_of_le hlt hcd.size⟩
  · intro p hp p' hp'
    rcases List.mem_cons.1 hp with rfl | hp <;> rcases List.mem_cons.1 hp' with rfl | hp'
    · simp
    · exact iff_of_false (hnew p' hp').1 (hnew p' hp').2
    · exact iff_of_false (Ne.symm (hnew p hp).1) (Ne.symm (hnew p hp).2)
    · exact hc.oneToOne p hp p' hp'
  · intro p hp hopen
    rw [List.mem_cons, not_or] at hopen
    rcases List.mem_cons.1 hp with rfl | hp
    · exact absurd rfl hopen.1
    · exact (hc.filled p hp hopen.2).extends hcd

/-- What is put into an empty copy does not touch byte arrays. -/
lemma isCopy_fill {children : List Value} {cell : Cell}
    (hq : c.store.cell? q = some (cell.withChildren [])) (h : IsCopy s c v w) :
    IsCopy s (c.fill q (cell.withChildren children)) v w := by
  refine h.mono (fun _ hp => hp) fun q' data hcell => ?_
  by_cases heq : q' = q
  · subst heq
    have hlt := Store.index_lt_of_cell? hq
    rw [fill, Store.cell?_put_self _ hlt]
    cases cell <;> simp_all [Cell.withChildren]
  · rw [fill, Store.cell?_put_of_ne _ heq, hcell]

/-- Filling the copy of an open container closes it. -/
lemma Sound.fill {children : List Value} (hc : Sound s (r :: opened) c) (hmemo : (r, q) ∈ c.memo)
    (hq : c.store.cell? q = some ((s.contents r).withChildren []))
    (hchildren : List.Forall₂ (IsCopy s c) (s.contents r).children children) :
    Sound s opened (c.fill q ((s.contents r).withChildren children)) := by
  have hcopy : ∀ {v w}, IsCopy s c v w →
      IsCopy s (c.fill q ((s.contents r).withChildren children)) v w := isCopy_fill hq
  have hfresh := hc.fresh _ hmemo
  refine ⟨by simpa [Copying.fill] using hc.size, ?_, ?_, hc.oneToOne, ?_⟩
  · intro q' hq'
    have hne : q' ≠ q := by
      rintro rfl
      exact absurd hq' (Nat.not_lt.2 hfresh.1)
    rw [Copying.fill, Store.cell?_put_of_ne _ hne]
    exact hc.cell? q' hq'
  · intro p hp
    simpa [Copying.fill] using hc.fresh p hp
  · intro p hp hopen
    by_cases hpr : p.1 = r
    · have hpq : p.2 = q := (hc.oneToOne p hp _ hmemo).1 hpr
      refine ⟨children, hpr ▸ hchildren.imp fun _ _ => hcopy, ?_⟩
      rw [hpr, hpq]
      exact Store.cell?_put_self _ hfresh.2
    · have hpq : p.2 ≠ q := fun h => hpr ((hc.oneToOne p hp _ hmemo).2 h)
      obtain ⟨others, hothers, hcell⟩ := hc.filled p hp (by simp [hpr, hopen])
      refine ⟨others, hothers.imp fun _ _ => hcopy, ?_⟩
      rw [Copying.fill, Store.cell?_put_of_ne _ hpq]
      exact hcell

/-! ### Whole copies -/

lemma not_mem_met_of_lookup (h : c.memo.lookup r = none) : r ∉ c.met := by
  intro hr
  obtain ⟨p, hp, rfl⟩ := List.mem_map.1 hr
  simpa using List.lookup_eq_none_iff.1 h p hp

lemma mem_memo_of_lookup (h : c.memo.lookup r = some q) : (r, q) ∈ c.memo := by
  obtain ⟨l, l', hmemo, -⟩ := List.lookup_eq_some_iff.1 h
  simp [hmemo]

lemma copyValue_leaf (hv : v.node? = none) : (s.copyValue c v).1 = c.leaf s v := by
  rw [Store.copyValue]
  split
  · rfl
  · simp_all

/-- A container that was met before gets the copy that it has. -/
lemma copyValue_met (hv : v.node? = some r) (hr : c.memo.lookup r = some q) :
    (s.copyValue c v).1 = (v.withRef q, c) := by
  rw [Store.copyValue]
  split
  · simp_all
  · split <;> simp_all

/-- A container that is met for the first time is entered, then its contents are copied, then its
copy is filled. -/
lemma copyValue_new (hv : v.node? = some r) (hr : c.memo.lookup r = none) :
    (s.copyValue c v).1 =
      let out := (s.copyValues (c.enter r (s.contents r)) (s.contents r).children).1
      (v.withRef c.next, out.2.fill c.next ((s.contents r).withChildren out.1)) := by
  rw [Store.copyValue]
  split
  · simp_all
  · rename_i r' hr'
    obtain rfl : r' = r := Option.some.inj (hr'.symm.trans hv)
    split
    · simp_all
    · rfl

/-- Copying a value, or values, extends the copy, keeps the invariant and answers copies. -/
lemma copy_spec (s : Store) :
    (∀ c v opened, Sound s opened c →
      Extends c (s.copyValue c v).1.2 ∧ Sound s opened (s.copyValue c v).1.2 ∧
        IsCopy s (s.copyValue c v).1.2 v (s.copyValue c v).1.1) ∧
    (∀ c vs opened, Sound s opened c →
      Extends c (s.copyValues c vs).1.2 ∧ Sound s opened (s.copyValues c vs).1.2 ∧
        List.Forall₂ (IsCopy s (s.copyValues c vs).1.2) vs (s.copyValues c vs).1.1) := by
  apply Store.copyValue.mutual_induct
  · intro c v hv opened hc
    rw [copyValue_leaf hv]
    exact ⟨extends_leaf s c v, hc.leaf v, isCopy_leaf hc hv⟩
  · intro c v r hv copy hr opened hc
    rw [copyValue_met hv hr]
    exact ⟨.refl c, hc, .node hv (mem_memo_of_lookup hr)⟩
  · intro c v r hv hr ih opened hc
    -- the copy is entered empty, everything below is copied, and only then is it filled
    obtain ⟨hext, hd, hchildren⟩ := ih (r :: opened) (hc.enter (not_mem_met_of_lookup hr) _)
    rw [copyValue_new hv hr]
    dsimp only
    generalize (s.copyValues (c.enter r (s.contents r)) (s.contents r).children).1 = out at *
    have hmemo : (r, c.next) ∈ out.2.memo := hext.memo List.mem_cons_self
    have hempty : out.2.store.cell? c.next = some ((s.contents r).withChildren []) :=
      hext.cell?_eq_some (cell?_enter c r _)
    refine ⟨?_, hd.fill hmemo hempty hchildren, .node hv hmemo⟩
    have hext' := (extends_enter c r (s.contents r)).trans hext
    refine ⟨hext'.memo, by simpa [Copying.fill] using hext'.size, fun q hq => ?_⟩
    have hne : q ≠ c.next := by
      rintro rfl
      exact absurd hq (Nat.lt_irrefl _)
    rw [Copying.fill, Store.cell?_put_of_ne _ hne]
    exact hext'.cell? q hq
  · intro c opened hc
    rw [Store.copyValues]
    exact ⟨.refl c, hc, .nil⟩
  · intro c v rest first ih₁ ih₂ _ opened hc
    obtain ⟨hext₁, hc₁, hfirst⟩ := ih₁ opened hc
    obtain ⟨hext₂, hc₂, hrest⟩ := ih₂ opened hc₁
    rw [Store.copyValues]
    exact ⟨hext₁.trans hext₂, hc₂, .cons (hfirst.extends hext₂) hrest⟩

/-! ### A finished copy is a bisimulation -/

/-- The containers of copies are new. -/
lemma IsCopy.index_of_ref? (hc : Sound s opened c) (h : IsCopy s c v w) (hw : w.ref? = some q) :
    s.size ≤ q.index ∧ q.index < c.store.size := by
  cases h with
  | node hv hmemo =>
    cases v with
    | list r | map r =>
      obtain rfl := Option.some.inj hw
      exact hc.fresh _ hmemo
    | _ => simp [Value.node?] at hv
  | byteArray hnew hcell =>
    obtain rfl := Option.some.inj hw
    exact ⟨hnew, Store.index_lt_of_cell? hcell⟩
  | scalar hv => simp [hv] at hw

lemma IsCopy.node?_cases (h : IsCopy s c v w) :
    (v.node? = none ∧ w.node? = none) ∨
      ∃ r q, v.node? = some r ∧ w.node? = some q ∧ (r, q) ∈ c.memo := by
  cases h with
  | node hv hmemo =>
    refine Or.inr ⟨_, _, hv, ?_, hmemo⟩
    cases v <;> simp_all [Value.node?, Value.withRef]
  | byteArray => exact Or.inl ⟨rfl, rfl⟩
  | scalar hv => cases v <;> simp_all [Value.node?, Value.ref?]

/-- Two copies are one container exactly when the originals are. -/
lemma IsCopy.node?_eq_iff (hc : Sound s opened c) {v' w' : Value} (h : IsCopy s c v w)
    (h' : IsCopy s c v' w') : v.node? = v'.node? ↔ w.node? = w'.node? := by
  rcases h.node?_cases with ⟨hv, hw⟩ | ⟨r, q, hv, hw, hmemo⟩ <;>
    rcases h'.node?_cases with ⟨hv', hw'⟩ | ⟨r', q', hv', hw', hmemo'⟩
  · simp [hv, hw, hv', hw']
  · simp [hv, hw, hv', hw']
  · simp [hv, hw, hv', hw']
  · rw [hv, hw, hv', hw', Option.some.injEq, Option.some.injEq]
    exact hc.oneToOne _ hmemo _ hmemo'

/-- A filled copy looks like its original, and what it holds are copies. -/
lemma label_children_of_contents {t : Store} {R : Value → Value → Prop} {children : List Value}
    (hv : v.node? = some r) (hcell : t.cell? q = some ((s.contents r).withChildren children))
    (hchildren : List.Forall₂ R (s.contents r).children children) :
    s.label v = t.label (v.withRef q) ∧
      List.Forall₂ R (s.children v) (t.children (v.withRef q)) := by
  have hlen := hchildren.length_eq
  unfold Store.contents at hcell hchildren hlen
  cases v with
  | list r' =>
    obtain rfl := Option.some.inj hv
    simp only [Store.label, Store.children, Value.withRef, Store.items]
    cases hs : s.cell? r' with
    | none => simp_all [Cell.children, Cell.withChildren]
    | some cell => cases cell <;> simp_all [Cell.children, Cell.withChildren]
  | map r' =>
    obtain rfl := Option.some.inj hv
    simp only [Store.label, Store.children, Value.withRef, Store.entries]
    cases hs : s.cell? r' with
    | none => simp_all [Cell.children, Cell.withChildren]
    | some cell =>
      cases cell with
      | map entries =>
        simp only [hs, Option.getD_some, Cell.children, Cell.withChildren,
          List.length_map] at hcell hchildren hlen
        rw [hcell]
        simp only [Entries.keys] at hcell ⊢
        rw [List.map_fst_zip (by simp [hlen]), List.map_snd_zip (by simp [hlen])]
        exact ⟨rfl, hchildren⟩
      | _ => simp_all [Cell.children, Cell.withChildren]
  | _ => simp [Value.node?] at hv

/-- When no copy is open any more, copies cannot be told from their originals. -/
lemma Sound.bisimulation (hc : Sound s [] c) : s.Bisimulation c.store (IsCopy s c) := by
  have hfilled : ∀ {v r q}, v.node? = some r → (r, q) ∈ c.memo →
      s.label v = c.store.label (v.withRef q) ∧
        List.Forall₂ (IsCopy s c) (s.children v) (c.store.children (v.withRef q)) := by
    intro v r q hv hmemo
    obtain ⟨children, hchildren, hcell⟩ := hc.filled _ hmemo (by simp)
    exact label_children_of_contents hv hcell hchildren
  refine ⟨?_, ?_, IsCopy.node?_eq_iff hc⟩
  · intro v w h
    cases h with
    | node hv hmemo => exact (hfilled hv hmemo).1
    | byteArray _ hcell => simp [Store.label, Store.data, hcell]
    | scalar hv => cases v <;> simp_all [Store.label, Value.ref?]
  · intro v w h
    cases h with
    | node hv hmemo => exact (hfilled hv hmemo).2
    | byteArray => exact .nil
    | scalar hv => cases v <;> simp_all [Store.children, Value.ref?]

end Copying

namespace Store

/-- A deep copy changes no container that was there, and what it answers reaches new containers
only. Along every path the copy has the label of the original, two paths meet in a list or map of
the copy exactly when they do in the original, and the two have one text. -/
theorem deepCopy_detached_isomorphic [FloatPrinter] (s : Store) (v : Value) :
    let w := (s.deepCopy v).1
    let t := (s.deepCopy v).2
    (∀ r : Ref, r.index < s.size → t.cell? r = s.cell? r) ∧
    (∀ p r, (t.follow w p).bind Value.ref? = some r → s.size ≤ r.index ∧ r.index < t.size) ∧
    (∀ p, (t.follow w p).map t.label = (s.follow v p).map s.label) ∧
    (∀ p q, (∃ r, t.nodeAt w p = some r ∧ t.nodeAt w q = some r) ↔
      ∃ r, s.nodeAt v p = some r ∧ s.nodeAt v q = some r) ∧
    w.repr t = v.repr s := by
  intro w t
  obtain ⟨-, hsound, hcopy⟩ := (Copying.copy_spec s).1 ⟨s, []⟩ v [] (Copying.Sound.start s)
  have hbisim := hsound.bisimulation
  refine ⟨hsound.cell?, ?_, fun p => (hbisim.label_follow p hcopy).symm,
    fun p q => (hbisim.nodeAt_meet p q hcopy).symm, ?_⟩
  · intro p r hr
    obtain ⟨x, hx, hxr⟩ := Option.bind_eq_some_iff.1 hr
    rcases hbisim.follow p hcopy with ⟨-, hnone⟩ | ⟨u, x', -, hx', hux⟩
    · exact absurd (hx.symm.trans hnone) (by simp)
    · obtain rfl : x = x' := Option.some.inj (hx.symm.trans hx')
      exact hux.index_of_ref? hsound hxr
  · exact Value.repr_eq_of_view_eq (hbisim.view_eq hcopy).symm

end Store

end Dynval
