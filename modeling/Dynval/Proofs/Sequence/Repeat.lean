import Mathlib
import Dynval.Platform
import Dynval.Proofs.Container.Write
import Dynval.Proofs.Operation.Frame

/-!
# Repetition shares nothing

The elements of a repetition are copies made one after another, and all containers below a copy are
made while it is made (`Fresh`). So no container that was there before is below the repetition, and
none is below two of its elements, however often a container comes in what is repeated, and also if
it holds itself. What is written through one element then leaves the others and the source as they
are, as long as none of them is itself put below that element.
-/

namespace Dynval

namespace Store

variable {s t u : Store} {v w x : Value}

/-! ### Fresh values -/

/-- Whether all containers below a value were made between two stores. -/
def Fresh (s t : Store) (w : Value) : Prop :=
  ∀ p r, t.refAt w p = some r → s.size ≤ r.index ∧ r.index < t.size

namespace Fresh

lemma inside (h : s.Fresh t w) : t.Inside w :=
  fun p r hr => (h p r hr).2

lemma scalar (hw : w.ref? = none) : s.Fresh t w := by
  intro p r hr
  have hnode : w.node? = none := by cases w <;> simp_all [Value.ref?, Value.node?]
  obtain ⟨-, hr⟩ := refAt_leaf hnode hr
  simp [hw] at hr

/-- What was made in between stays so when more is added. -/
lemma later (h : s.Fresh t w) (htu : t.Extends u) : s.Fresh u w := by
  intro p r hr
  rw [htu.refAt h.inside] at hr
  obtain ⟨hle, hlt⟩ := h p r hr
  exact ⟨hle, Nat.lt_of_lt_of_le hlt htu.size⟩

lemma earlier (h : t.Fresh u w) (hst : s.Extends t) : s.Fresh u w := by
  intro p r hr
  obtain ⟨hle, hlt⟩ := h p r hr
  exact ⟨Nat.le_trans hst.size hle, hlt⟩

/-- What is made later shares nothing with what was there. -/
lemma apart (h : t.Fresh u x) (hw : t.Inside w) (htu : t.Extends u) : u.Apart w x := by
  intro p q r hp hq
  rw [htu.refAt hw] at hp
  exact absurd (hw p r hp) (Nat.not_lt.2 (h q r hq).1)

end Fresh

/-- A deep copy is made of new containers. -/
lemma fresh_deepCopy (s : Store) (v : Value) : s.Fresh (s.deepCopy v).2 (s.deepCopy v).1 := by
  obtain ⟨-, hsound, hcopy⟩ := (Copying.copy_spec s).1 ⟨s, []⟩ v [] (Copying.Sound.start s)
  intro p r hr
  obtain ⟨x, hx, hxr⟩ := Option.bind_eq_some_iff.1 hr
  rcases hsound.bisimulation.follow p hcopy with ⟨-, hnone⟩ | ⟨u, y, -, hy, huy⟩
  · exact absurd (hx.symm.trans hnone) (by simp)
  · obtain rfl : x = y := Option.some.inj (hx.symm.trans hy)
    exact huy.index_of_ref? hsound hxr

/-- A deep copy has the datum of the original. -/
lemma view_deepCopy (s : Store) (v : Value) :
    (s.deepCopy v).1.view (s.deepCopy v).2 = v.view s := by
  obtain ⟨-, hsound, hcopy⟩ := (Copying.copy_spec s).1 ⟨s, []⟩ v [] (Copying.Sound.start s)
  exact (hsound.bisimulation.view_eq hcopy).symm

/-! ### Copies -/

/-- Whether a value of a later store is a copy of a value: of a container a deep copy that was made
in between, of anything else the value itself. -/
def IsCopy (s t : Store) (x y : Value) : Prop :=
  if x.kind.isComposite then
    ∃ u, s.Extends u ∧ (u.deepCopy x).1 = y ∧ (u.deepCopy x).2.Extends t
  else y = x

namespace IsCopy

variable {y : Value}

lemma later (h : s.IsCopy t x y) (htu : t.Extends u) : s.IsCopy u x y := by
  unfold IsCopy at h ⊢
  split_ifs at h ⊢
  · obtain ⟨v, hsv, hcopy, hvt⟩ := h
    exact ⟨v, hsv, hcopy, hvt.trans htu⟩
  · exact h

lemma earlier (h : t.IsCopy u x y) (hst : s.Extends t) : s.IsCopy u x y := by
  unfold IsCopy at h ⊢
  split_ifs at h ⊢
  · obtain ⟨v, htv, hcopy, hvu⟩ := h
    exact ⟨v, hst.trans htv, hcopy, hvu⟩
  · exact h

lemma scalar (hx : x.kind.isComposite = false) : s.IsCopy t x x := by
  simp [IsCopy, hx]

/-- A copy holds no container that was there before. -/
lemma fresh (h : s.IsCopy t x y) : s.Fresh t y := by
  unfold IsCopy at h
  split_ifs at h with hx
  · obtain ⟨u, hsu, rfl, hut⟩ := h
    exact ((u.fresh_deepCopy x).later hut).earlier hsu
  · subst h
    refine .scalar ?_
    cases y <;> simp_all [Value.kind, Kind.isComposite, Value.ref?]

/-- A copy has the datum of the original. -/
lemma view (h : s.IsCopy t x y) (hst : s.Extends t) (hx : s.Inside x) : y.view t = x.view s := by
  unfold IsCopy at h
  split_ifs at h
  · obtain ⟨u, hsu, rfl, hut⟩ := h
    rw [(hut.keeps (u.fresh_deepCopy x).inside).view, u.view_deepCopy, (hsu.keeps hx).view]
  · rw [h, (hst.keeps hx).view]

end IsCopy

/-- Whether values are copies of others, made of containers of their own. -/
structure CopiedTo (s : Store) (vs : List Value) (t : Store) (ws : List Value) : Prop where
  later : s.Extends t
  copies : List.Forall₂ (s.IsCopy t) vs ws
  apart : ws.Pairwise t.Apart

namespace CopiedTo

variable {vs ws : List Value}

lemma nil (s : Store) : s.CopiedTo [] s [] :=
  ⟨.refl s, .nil, .nil⟩

lemma fresh (h : s.CopiedTo vs t ws) (hw : w ∈ ws) : s.Fresh t w := by
  obtain ⟨i, hi, rfl⟩ := List.mem_iff_getElem.1 hw
  exact (h.copies.get (h.copies.length_eq ▸ hi) hi).fresh

/-- A copy is made, and then the other ones, which share nothing with what is there by then. -/
lemma cons (hst : s.Extends t) (hw : s.IsCopy t v w) (hws : t.CopiedTo vs u ws) :
    s.CopiedTo (v :: vs) u (w :: ws) where
  later := hst.trans hws.later
  copies := .cons (hw.later hws.later) (hws.copies.imp fun _ _ h => h.earlier hst)
  apart := List.pairwise_cons.2
    ⟨fun _ hx => (hws.fresh hx).apart hw.fresh.inside hws.later, hws.apart⟩

/-- The copies are there in a later store as well. -/
lemma add (h : s.CopiedTo vs t ws) (htu : t.Extends u) : s.CopiedTo vs u ws where
  later := h.later.trans htu
  copies := h.copies.imp fun _ _ h => h.later htu
  apart := h.apart.imp_of_mem fun hw hx hwx =>
    hwx.later (h.fresh hw).inside (h.fresh hx).inside htu

/-- Two copies at different places share no container. -/
lemma apart_of_ne (h : s.CopiedTo vs t ws) {i j : Nat} (hij : i ≠ j) (hw : ws[i]? = some w)
    (hx : ws[j]? = some x) : t.Apart w x := by
  obtain ⟨hi, rfl⟩ := List.getElem?_eq_some_iff.1 hw
  obtain ⟨hj, rfl⟩ := List.getElem?_eq_some_iff.1 hx
  have hapart := List.pairwise_iff_getElem.1 h.apart
  rcases Nat.lt_or_gt_of_ne hij with hlt | hgt
  · exact hapart i j hi hj hlt
  · exact (hapart j i hj hi hgt).symm

/-- Copies have the texts of the originals. -/
lemma repr [FloatPrinter] (h : s.CopiedTo vs t ws) (hvs : ∀ v ∈ vs, s.Inside v) :
    ws.map (Value.repr t) = vs.map (Value.repr s) := by
  have hlength := h.copies.length_eq
  refine List.ext_getElem (by simp [hlength]) fun i hi hi' => ?_
  rw [List.length_map] at hi hi'
  rw [List.getElem_map, List.getElem_map]
  exact Value.repr_eq_of_view_eq
    ((h.copies.get hi' hi).view h.later (hvs _ (List.getElem_mem hi')))

/-- A new list over the copies. -/
lemma fresh_alloc (h : s.CopiedTo vs t ws) :
    s.Fresh (t.alloc (.list ws)).2 (.list ⟨t.size⟩) := by
  have hlater := Extends.alloc t (.list ws)
  intro p r hr
  cases p with
  | nil =>
    obtain rfl := Option.some.inj hr
    rw [size_alloc]
    exact ⟨h.later.size, Nat.lt_succ_self _⟩
  | cons i p =>
    rw [refAt_cons, children, items_alloc_self] at hr
    obtain ⟨w, hw, hr⟩ := Option.bind_eq_some_iff.1 hr
    exact (h.fresh (List.mem_of_getElem? hw)).later hlater p r hr

end CopiedTo

end Store

namespace Sequence

variable {s : Store} {items : List Value}

/-! ### Lists repeated -/

section

variable {α : Type}

@[simp] lemma repeatList_zero (xs : List α) : repeatList 0 xs = [] := rfl

lemma repeatList_succ (count : Nat) (xs : List α) :
    repeatList (count + 1) xs = xs ++ repeatList count xs := by
  rw [repeatList, List.replicate_succ, List.flatten_cons, repeatList]

@[simp] lemma repeatList_nil (count : Nat) : repeatList count ([] : List α) = [] := by
  simp [repeatList]

lemma mem_of_mem_repeatList {count : Nat} {xs : List α} {x : α} (h : x ∈ repeatList count xs) :
    x ∈ xs := by
  obtain ⟨ys, hys, hx⟩ := List.mem_flatten.1 h
  rwa [List.eq_of_mem_replicate hys] at hx

end

/-! ### Room -/

section

variable [Allocator]

/-- Whether there is room for a number of elements: it is a size, and the allocator makes room. -/
def HasRoom (slot : Slot) (n : Nat) : Prop :=
  n ≤ maxSize ∧ Allocator.reserves slot n = true

instance (slot : Slot) (n : Nat) : Decidable (HasRoom slot n) :=
  inferInstanceAs (Decidable (_ ∧ _))

lemma hasRoom_zero (slot : Slot) : HasRoom slot 0 :=
  ⟨Nat.zero_le _, Allocator.reserves_zero slot⟩

/-- Room is made for the product, or else the product in 128 bits is told. -/
lemma reserveRepeated_eq (op : Operation) (slot : Slot) (unit count : Nat) :
    reserveRepeated op slot unit count =
      if HasRoom slot (unit * count) then .ok ()
      else .error (.of op (.cannotAllocate (wideMul unit count))) := by
  rcases Nat.eq_zero_or_pos unit with rfl | hpos
  · rw [Nat.zero_mul, if_pos (hasRoom_zero slot), reserveRepeated, if_pos rfl]
  · rw [reserveRepeated, if_neg (Nat.ne_of_gt hpos), repeatedLength, checkedMul, toSize?]
    by_cases hsize : unit * count ≤ maxSize
    · have hwide : wideMul unit count = unit * count :=
        wideMul_eq (Nat.lt_of_le_of_lt hsize (by decide))
      simp only [HasRoom, hsize, true_and, hwide]
      rfl
    · simp only [HasRoom, hsize, false_and, if_false]
      rfl

/-- What is made after making sure that there is room is made where there is. -/
lemma reserveRepeated_bind_apply {α : Type} (op : Operation) (slot : Slot) (unit count : Nat)
    (x : Action Fault α) (s : Store) :
    ((Action.check fun _ => reserveRepeated op slot unit count) >>= fun _ => x) s =
      if HasRoom slot (unit * count) then x s
      else ⟨.error (.of op (.cannotAllocate (wideMul unit count))), s, []⟩ := by
  simp only [Action.bind_apply, Action.check_apply, reserveRepeated_eq]
  by_cases hroom : HasRoom slot (unit * count)
  · simp only [if_pos hroom, List.nil_append]
  · simp only [if_neg hroom]

end

/-! ### Repeated elements -/

/-- An independent copy always succeeds, and only adds containers. -/
lemma isCopy_independentCopy {ε : Type} (v : Value) (s : Store) :
    ∃ w, ((independentCopy v : Action ε Value) s).result = .ok w ∧
      s.Extends ((independentCopy v : Action ε Value) s).store ∧
      s.IsCopy ((independentCopy v : Action ε Value) s).store v w := by
  unfold independentCopy
  split_ifs with hv
  · refine ⟨_, rfl, s.extends_deepCopy v, ?_⟩
    rw [Store.IsCopy, if_pos hv]
    exact ⟨s, .refl s, rfl, .refl _⟩
  · exact ⟨v, rfl, .refl s, .scalar (Bool.eq_false_iff.2 hv)⟩

/-- Copying one element after another. -/
lemma copiedTo_mapM_independentCopy {ε : Type} (vs : List Value) (s : Store) :
    ∃ ws, ((vs.mapM independentCopy : Action ε (List Value)) s).result = .ok ws ∧
      s.CopiedTo vs ((vs.mapM independentCopy : Action ε (List Value)) s).store ws := by
  induction vs generalizing s with
  | nil => exact ⟨[], rfl, .nil s⟩
  | cons v vs ih =>
    obtain ⟨w, hw, hlater, hcopy⟩ := isCopy_independentCopy (ε := ε) v s
    obtain ⟨ws, hws, hcopied⟩ := ih ((independentCopy v : Action ε Value) s).store
    rw [List.mapM_cons, Action.bind_of_ok hw, Action.bind_of_ok hws]
    exact ⟨w :: ws, rfl, hcopied.cons hlater hcopy⟩

/-- Elements are repeated as copies if there is room, and else nothing happens. -/
lemma repeatItems_apply [Allocator] (op : Operation) (items : List Value) (count : Nat)
    (s : Store) :
    repeatItems op items count s =
      if HasRoom .value (items.length * count) then
        (repeatList count items).mapM independentCopy s
      else ⟨.error (.of op (.cannotAllocate (wideMul items.length count))), s, []⟩ := by
  rw [repeatItems, reserveRepeated_bind_apply]
  cases items with
  | nil => simp [repeatList]
  | cons v vs => rfl

/-! ### Repetitions -/

section

variable [Platform] {v b : Value} {n : Int64}

lemma mul_left (hv : Arith.isRepeatable v) (hb : b.integer? = some n) :
    Arith.mul v b = Arith.repeatSequence v (repeatCount n) := by
  simp only [Arith.mul, hv, if_true, Arith.mul.repeated, hb]

lemma mul_right (hv : Arith.isRepeatable v) (hb : b.integer? = some n) :
    Arith.mul b v = Arith.repeatSequence v (repeatCount n) := by
  simp only [Arith.mul, hv, Arith.isRepeatable_of_integer? hb, if_true, if_false,
    Bool.false_eq_true, Arith.mul.repeated, hb]

/-- The ways to repeat a value of a store: the value, the elements that are repeated, the number of
repetitions, and the action. -/
inductive Repeats (s : Store) : Value → List Value → Int64 → Action Fault Value → Prop
  | listRepeat (v : Value) (n : Int64) : Repeats s v [v] n (listRepeat v n)
  | mulLeft (r : Ref) {b : Value} {n : Int64} (hb : b.integer? = some n) :
    Repeats s (.list r) (s.items r) n (Arith.mul (.list r) b)
  | mulRight (r : Ref) {b : Value} {n : Int64} (hb : b.integer? = some n) :
    Repeats s (.list r) (s.items r) n (Arith.mul b (.list r))

namespace Repeats

variable {source : Value} {x : Action Fault Value}

/-- What is repeated of a value in the store is in the store. -/
lemma inside_items (h : Repeats s source items n x) (hsource : s.Inside source) :
    ∀ v ∈ items, s.Inside v := by
  intro v hv
  cases h with
  | listRepeat =>
    rw [List.mem_singleton.1 hv]
    exact hsource
  | mulLeft r | mulRight r =>
    obtain ⟨i, hi⟩ := List.mem_iff_getElem?.1 hv
    exact hsource.child (w := .list r) hi

/-- Every way to repeat makes a new list of the repeated elements. -/
lemma outcome_eq (h : Repeats s source items n x) :
    ∃ op, (x s).result = ((repeatItems op items (repeatCount n) >>= newList) s).result ∧
      (x s).store = ((repeatItems op items (repeatCount n) >>= newList) s).store := by
  cases h with
  | listRepeat => exact ⟨.listRepeat, rfl, rfl⟩
  | mulLeft r hb =>
    rw [mul_left rfl hb]
    exact ⟨.mul, rfl, rfl⟩
  | mulRight r hb =>
    rw [mul_right rfl hb]
    exact ⟨.mul, rfl, rfl⟩

/-- A repetition for which there is room is a new list over copies of the repeated elements. -/
lemma exists_copies (h : Repeats s source items n x)
    (hroom : HasRoom .value (items.length * repeatCount n)) :
    ∃ t ws, s.CopiedTo (repeatList (repeatCount n) items) t ws ∧
      (x s).result = .ok (.list ⟨t.size⟩) ∧ (x s).store = (t.alloc (.list ws)).2 := by
  obtain ⟨ws, hws, hcopied⟩ :=
    copiedTo_mapM_independentCopy (ε := Fault) (repeatList (repeatCount n) items) s
  obtain ⟨op, hresult, hstore⟩ := h.outcome_eq
  have happly := repeatItems_apply op items (repeatCount n) s
  rw [if_pos hroom] at happly
  rw [← happly] at hws hcopied
  rw [Action.bind_of_ok hws] at hresult hstore
  exact ⟨_, ws, hcopied, hresult, hstore⟩

/-- A repetition succeeds exactly when there is room for it. -/
lemma exists_ok_iff (h : Repeats s source items n x) :
    (∃ w, (x s).result = .ok w) ↔ HasRoom .value (items.length * repeatCount n) := by
  constructor
  · rintro ⟨w, hw⟩
    by_contra hroom
    obtain ⟨op, hresult, -⟩ := h.outcome_eq
    have happly := repeatItems_apply op items (repeatCount n) s
    rw [if_neg hroom] at happly
    rw [Action.bind_of_error (by rw [happly]), hw] at hresult
    cases hresult
  · intro hroom
    obtain ⟨t, ws, -, hresult, -⟩ := h.exists_copies hroom
    exact ⟨_, hresult⟩

end Repeats

/-- Repeating a value, or the elements of a list, succeeds if there is room. The elements of the new
list look like the repeated ones, no container that was there is changed or below the new list, and
no container is below two of its elements. After any writes into the containers of one element or
into new ones, or through one element as long as nothing of another value is written there, the
other value looks as before, be it an element or what was repeated. -/
theorem repetition_never_aliases {source : Value} {x : Action Fault Value}
    (hx : Repeats s source items n x) (hsource : s.Inside source) :
    ((∃ w, (x s).result = .ok w) ↔ HasRoom .value (items.length * repeatCount n)) ∧
    ∀ w, (x s).result = .ok w →
      let t := (x s).store
      ∃ q, w = .list q ∧
        (t.items q).map (Value.repr t) = repeatList (repeatCount n) (items.map (Value.repr s)) ∧
        (∀ r : Ref, r.index < s.size → t.cell? r = s.cell? r) ∧
        (∀ p r, t.refAt w p = some r → s.size ≤ r.index) ∧
        (∀ (i j : Nat) y z, i ≠ j → (t.items q)[i]? = some y → (t.items q)[j]? = some z →
          t.Apart y z) ∧
        source.repr t = source.repr s ∧
        ∀ (i : Nat) y z, (t.items q)[i]? = some y →
          (z = source ∨ ∃ j : Nat, i ≠ j ∧ (t.items q)[j]? = some z) →
          ∀ u, t.Written (t.Into y) u ∨ t.Written (Store.Through y z) u →
            z.repr u = z.repr t := by
  refine ⟨hx.exists_ok_iff, fun w hw => ?_⟩
  obtain ⟨t, ws, hcopied, hresult, hstore⟩ := hx.exists_copies (hx.exists_ok_iff.1 ⟨w, hw⟩)
  obtain rfl : w = .list ⟨t.size⟩ := Except.ok.inj (hw.symm.trans hresult)
  rw [hstore]
  have hfresh := hcopied.fresh_alloc
  replace hcopied := hcopied.add (Store.Extends.alloc t (.list ws))
  have hitems := t.items_alloc_self ws
  generalize (⟨t.size⟩ : Ref) = q at *
  generalize (t.alloc (.list ws)).2 = t at *
  have hinside : ∀ {i : Nat} {y}, ws[i]? = some y → t.Inside y := fun hy =>
    (hcopied.fresh (List.mem_of_getElem? hy)).inside
  refine ⟨q, rfl, ?_, hcopied.later.cell?, fun p r hr => (hfresh p r hr).1, ?_, ?_, ?_⟩
  · rw [hitems, ← map_repeatList]
    exact hcopied.repr fun v hv => hx.inside_items hsource v (mem_of_mem_repeatList hv)
  · intro i j y z hij hy hz
    rw [hitems] at hy hz
    exact hcopied.apart_of_ne hij hy hz
  · exact (hcopied.later.keeps hsource).repr
  · intro i y z hy hz u hu
    rw [hitems] at hy hz
    refine (Store.Written.keeps hu (hinside hy) ?_ ?_).repr
    · rcases hz with rfl | ⟨j, -, hz⟩
      · exact hsource.later hcopied.later
      · exact hinside hz
    · rcases hz with rfl | ⟨j, hij, hz⟩
      · have hfresh := hcopied.fresh (List.mem_of_getElem? hy)
        exact (hfresh.apart hsource hcopied.later).symm
      · exact hcopied.apart_of_ne hij hy hz

end

section

attribute [local instance] Platform.standard

/-- A row that holds a byte array and itself, listed twice and repeated twice. A write to the first
of the four new rows does not show in the last. -/
theorem repeated_rows_written_apart :
    let s : Store := ⟨#[.byteArray [1], .list [.byteArray ⟨0⟩, .list ⟨1⟩],
      .list [.list ⟨1⟩, .list ⟨1⟩]]⟩
    let x := Arith.mul (.int 2) (.list ⟨2⟩)
    let t := (x s).store
    Repeats s (.list ⟨2⟩) (s.items ⟨2⟩) 2 x ∧ s.Inside (.list ⟨2⟩) ∧
      ∃ q y z, (x s).result = .ok (.list q) ∧
        (t.items q)[0]? = some y ∧ (t.items q)[3]? = some z ∧ t.Apart y z ∧
        z.repr ((Write.push .nil).run t y) = (Value.list ⟨1⟩).repr s := by
  intro s x t
  have hx : Repeats s (.list ⟨2⟩) (s.items ⟨2⟩) 2 x := .mulRight ⟨2⟩ rfl
  have hs : s.Closed := by decide
  have hsource : s.Inside (.list ⟨2⟩) := hs.inside (by decide)
  obtain ⟨hroom, hshape⟩ := repetition_never_aliases hx hsource
  obtain ⟨w, hw⟩ := hroom.2 (by decide)
  obtain ⟨q, rfl, hrepr, -, -, hapart, -, hwritten⟩ := hshape w hw
  replace hrepr : (t.items q).map (Value.repr t) =
      List.replicate 4 ((Value.list ⟨1⟩).repr s) := hrepr
  have hlength : (t.items q).length = 4 := by simpa using congrArg List.length hrepr
  have hsome : ∀ i < 4, ∃ y, (t.items q)[i]? = some y := fun i hi =>
    ⟨_, List.getElem?_eq_getElem (hlength ▸ hi)⟩
  obtain ⟨y, hy⟩ := hsome 0 (by simp)
  obtain ⟨z, hz⟩ := hsome 3 (by simp)
  have hlast : z.repr t = (Value.list ⟨1⟩).repr s := by
    have hrow : ((t.items q).map (Value.repr t))[3]? = some ((Value.list ⟨1⟩).repr s) := by
      rw [hrepr]
      rfl
    rw [List.getElem?_map, hz] at hrow
    exact Option.some.inj hrow
  refine ⟨hx, hsource, q, y, z, hw, hy, hz, hapart 0 3 y z (by simp) hy hz, ?_⟩
  rw [← hlast]
  refine hwritten 0 y z hy (Or.inr ⟨3, by simp, hz⟩) _ (Or.inl (.write .refl fun r hr => ?_))
  exact Or.inr ⟨[], hr⟩

/-- Two rows made by repetition. The second is put into the first and then written to where it
stands in the first: every write is to a container below the first row, and the second changes. -/
theorem repeated_row_written_through_other :
    let s : Store := ⟨#[.list [.int 0]]⟩
    let x := listRepeat (.list ⟨0⟩) 2
    let t := (x s).store
    ∃ q y z, (x s).result = .ok (.list q) ∧ (t.items q)[0]? = some y ∧
      (t.items q)[1]? = some z ∧ z.repr t = "[0]" ∧
      ∃ u, t.Written (fun u c _ => ∃ p, u.follow y p = some c) u ∧ z.repr u = "[0, 5]" := by
  intro s x t
  have hx : x s = ⟨.ok (.list ⟨3⟩), ⟨#[.list [.int 0], .list [.int 0], .list [.int 0],
      .list [.list ⟨1⟩, .list ⟨2⟩]]⟩, [.repeating .list 2]⟩ := by
    change listRepeat (.list ⟨0⟩) 2 ⟨#[.list [.int 0]]⟩ = _
    cbv
  simp only [t, hx]
  refine ⟨⟨3⟩, .list ⟨1⟩, .list ⟨2⟩, rfl, rfl, rfl, by cbv, ?_⟩
  refine ⟨_, .write (c := .list ⟨2⟩) (w := .push (.int 5))
    (.write (c := .list ⟨1⟩) (w := .push (.list ⟨2⟩)) .refl ⟨[], rfl⟩) ⟨[1], rfl⟩, by cbv⟩

end

end Sequence

end Dynval
