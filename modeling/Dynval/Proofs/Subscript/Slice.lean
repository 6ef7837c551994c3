import Dynval.Number.Arith
import Dynval.Platform
import Dynval.Proofs.Sequence.Elements
import Dynval.Proofs.Store.Paths

/-!
# Slices

A slice holds the elements between two positions, whatever the kind of the sequence and the bounds.
The bounds of a slice are computed from the length alone, so a subscript cuts a sequence at the same
place whether it ends a slice or starts one, and the two slices join to the sequence again.
-/

namespace Dynval

/-! ### Elements between two positions -/

/-- The elements of a list at the positions from `lo` up to `hi`, in order. -/
def between {α : Type} (lo hi : Int) (xs : List α) : List α :=
  (xs.zipIdx.filter fun e => lo ≤ e.2 ∧ e.2 < hi).map Prod.fst

section

variable {α : Type}

lemma filter_zipIdx (lo hi : Int) (xs : List α) (k : Nat) :
    ((xs.zipIdx k).filter fun e => lo ≤ e.2 ∧ e.2 < hi).map Prod.fst =
      (xs.take (hi - k).toNat).drop (lo - k).toNat := by
  induction xs generalizing k with
  | nil => simp
  | cons x xs ih =>
    rw [List.zipIdx_cons, List.filter_cons, apply_ite (List.map Prod.fst), List.map_cons, ih,
      Int.natCast_succ]
    -- Once a bound is at most `k` it stays cut off to zero; before that it goes down with `k`.
    by_cases hhi : hi ≤ k
    · have htake : (hi - k).toNat = 0 ∧ (hi - (k + 1 : Int)).toNat = 0 := by omega
      simp [htake, Int.not_lt.2 hhi]
    · have htake : (hi - k).toNat = (hi - (k + 1 : Int)).toNat + 1 := by omega
      by_cases hlo : lo ≤ k
      · have hdrop : (lo - k).toNat = 0 ∧ (lo - (k + 1 : Int)).toNat = 0 := by omega
        simp [htake, hdrop, hlo, Int.not_le.1 hhi]
      · have hdrop : (lo - k).toNat = (lo - (k + 1 : Int)).toNat + 1 := by omega
        simp [htake, hdrop, hlo]

/-- Between the bounds over the integers lies what is between the bounds of the slice. -/
lemma between_eq (lo hi : Option Int64) (xs : List α) :
    between (lo.elim 0 (boundPosition xs.length)) (hi.elim xs.length (boundPosition xs.length)) xs =
      xs.extract (sliceBounds lo hi xs.length).1 (sliceBounds lo hi xs.length).2 := by
  have hlo := sliceBounds_fst lo hi xs.length
  have hhi := sliceBounds_snd lo hi xs.length
  rw [← hlo] at hhi
  rw [between, filter_zipIdx, List.extract_eq_take_drop, List.drop_take, ← hlo]
  congr 1
  omega

/-- What is before a bound and what is after it make the whole list. -/
lemma extract_append_extract (k : Int64) (xs : List α) :
    xs.extract (sliceBounds none (some k) xs.length).1 (sliceBounds none (some k) xs.length).2 ++
      xs.extract (sliceBounds (some k) none xs.length).1 (sliceBounds (some k) none xs.length).2 =
        xs := by
  have hk := clampBound_le xs.length k
  have hrest : xs.length - clampBound xs.length k = (xs.drop (clampBound xs.length k)).length :=
    List.length_drop.symm
  simp only [sliceBounds, Option.elim_none, Option.elim_some, Nat.max_zero, Nat.max_eq_left hk,
    List.extract_eq_take_drop, Nat.sub_zero, List.drop_zero]
  rw [hrest, List.take_length, List.take_append_drop]

end

/-! ### New sequences -/

/-- Whether an action, run on a store, has made a sequence of a kind with the given elements: it
has succeeded and changed no container that was there, and if the sequence is a container, it is
none that was there. -/
def Outcome.MakesSequence {ε : Type} (o : Outcome ε Value) (s : Store) (kind : Kind)
    (vs : List Value) : Prop :=
  ∃ w, o.result = .ok w ∧ w.kind = kind ∧ w.IsSequence o.store vs ∧ s.Extends o.store ∧
    ∀ r, w.ref? = some r → s.size ≤ r.index

variable {ε : Type} {s : Store} {v a b : Value} {vs xs ys : List Value}

/-- A sequence that is new in a later store is new in an earlier one. -/
lemma Outcome.MakesSequence.earlier {o : Outcome ε Value} {t : Store} {kind : Kind}
    (h : o.MakesSequence t kind vs) (hst : s.Extends t) : o.MakesSequence s kind vs := by
  obtain ⟨w, hw, hkind, hseq, hlater, hnew⟩ := h
  exact ⟨w, hw, hkind, hseq, hst.trans hlater, fun r hr => hst.size.trans (hnew r hr)⟩

lemma makesSequence_newList (items : List Value) (s : Store) :
    ((newList items : Action ε Value) s).MakesSequence s .list items := by
  refine ⟨.list ⟨s.size⟩, rfl, rfl, .list (s.cell?_alloc_self _), .alloc s _, ?_⟩
  rintro r ⟨⟩
  exact Nat.le_refl _

lemma makesSequence_newByteArray (data : List UInt8) (s : Store) :
    ((newByteArray data : Action ε Value) s).MakesSequence s .byteArray
      (data.map Value.ofByte) := by
  refine ⟨.byteArray ⟨s.size⟩, rfl, rfl, .byteArray (s.cell?_alloc_self _), .alloc s _, ?_⟩
  rintro r ⟨⟩
  exact Nat.le_refl _

lemma makesSequence_str (t : String) (s : Store) :
    ((pure (.str t) : Action ε Value) s).MakesSequence s .str (t.toList.map Value.ofChar) :=
  ⟨.str t, rfl, rfl, .str t, .refl s, nofun⟩

lemma makesSequence_bytes (data : List UInt8) (s : Store) :
    ((pure (.bytes data) : Action ε Value) s).MakesSequence s .bytes (data.map Value.ofByte) :=
  ⟨.bytes data, rfl, rfl, .bytes data, .refl s, nofun⟩

lemma map_extract {α β : Type} (f : α → β) (lo hi : Nat) (l : List α) :
    (l.map f).extract lo hi = (l.extract lo hi).map f := by
  simp only [List.extract_eq_take_drop, List.map_take, List.map_drop]

namespace Subscript

/-- A slice is a new sequence of the elements between its bounds. -/
lemma makesSequence_slice (hv : v.IsSequence s vs) (lo hi : Option Int64) :
    ((slice v lo hi : Action ε Value) s).MakesSequence s v.kind
      (vs.extract (sliceBounds lo hi vs.length).1 (sliceBounds lo hi vs.length).2) := by
  have hlength := hv.sequenceLength?
  cases hv with
  | list hcell =>
    simp only [slice, Action.query_bind_apply, hlength]
    rw [Store.items_of_cell? hcell]
    exact makesSequence_newList _ s
  | str t =>
    simp only [slice, Action.query_bind_apply, hlength]
    rw [map_extract, ← Text.toList_slice]
    exact makesSequence_str _ s
  | byteArray hcell =>
    simp only [slice, Action.query_bind_apply, hlength, map_extract]
    rw [Store.data_of_cell? hcell]
    exact makesSequence_newByteArray _ s
  | bytes data =>
    simp only [slice, Action.query_bind_apply, hlength, map_extract]
    exact makesSequence_bytes _ s

end Subscript

/-- Two sequences of one kind are joined into a new one. -/
lemma Arith.makesSequence_add [FloatPrinter] (ha : a.IsSequence s xs) (hb : b.IsSequence s ys)
    (hkind : a.kind = b.kind) : (add a b s).MakesSequence s a.kind (xs ++ ys) := by
  cases ha with
  | list ha =>
    cases hb with
    | list hb =>
      simp only [add, Action.query_bind_apply]
      rw [Store.items_of_cell? ha, Store.items_of_cell? hb]
      exact makesSequence_newList _ s
    | _ => cases hkind
  | str x =>
    cases hb with
    | str y =>
      rw [← List.map_append, ← String.toList_append]
      exact makesSequence_str (x ++ y) s
    | _ => cases hkind
  | byteArray ha =>
    cases hb with
    | byteArray hb =>
      simp only [add, Action.query_bind_apply, Value.byteData?]
      rw [Store.data_of_cell? ha, Store.data_of_cell? hb, ← List.map_append]
      exact makesSequence_newByteArray _ s
    | _ => cases hkind
  | bytes x =>
    cases hb with
    | bytes y =>
      rw [← List.map_append]
      exact makesSequence_bytes (x ++ y) s
    | _ => cases hkind

namespace Subscript

/-- A slice of a sequence is a new sequence of the same kind. It holds the elements at the positions
from the lower bound up to the upper one, in order, where the bounds are taken over the integers.
The positions that a slice is cut at are in order and inside, for every length. In a sequence whose
length has 64 bits all positions that bounds denote have 64 bits, so none is cut off or wrapped. -/
theorem slice_holds_elements_between (hv : v.IsSequence s vs) (lo hi : Option Int64) :
    let n := vs.length
    let lower : Int := lo.elim 0 (boundPosition n)
    let upper : Int := hi.elim n (boundPosition n)
    ((slice v lo hi : Action ε Value) s).MakesSequence s v.kind (between lower upper vs) ∧
    (∀ m, (sliceBounds lo hi m).1 ≤ (sliceBounds lo hi m).2 ∧ (sliceBounds lo hi m).2 ≤ m) ∧
    ∀ (m : Nat) (index : Int64), (m : Int) ≤ Int64.maxValue.toInt →
      (Int64.ofInt (normalizeIndex index m)).toInt = normalizeIndex index m := by
  intro n lower upper
  refine ⟨?_, fun m => ⟨sliceBounds_le lo hi m, sliceBounds_snd_le lo hi m⟩,
    fun m index hm => toInt_ofInt_normalizeIndex hm index⟩
  rw [between_eq]
  exact makesSequence_slice hv lo hi

/-- All but the last character of a text with characters of one to four bytes, from the lowest bound
that there is. -/
theorem slice_of_wide_text :
    let t := "aé€😀"
    (Value.str t).IsSequence .empty (t.toList.map .ofChar) ∧
      ((slice (.str t) (some Int64.minValue) (some (-1)) : Action Fault Value)
        .empty).MakesSequence .empty .str [.str "a", .str "é", .str "€"] := by
  intro t
  have ht : (Value.str t).IsSequence .empty (t.toList.map .ofChar) := .str t
  have hslice := (slice_holds_elements_between (ε := Fault) ht (some Int64.minValue) (some (-1))).1
  refine ⟨ht, ?_⟩
  convert hslice using 1
  · rfl
  · decide +kernel

/-- The slice of a sequence up to a subscript and the slice from it on join to a new sequence of the
same kind with the same elements, for every subscript, inside or outside. -/
theorem slices_join [FloatPrinter] (hv : v.IsSequence s vs) (k : Int64) :
    let joined : Action Fault Value := do
      let front ← slice v none (some k)
      let back ← slice v (some k) none
      Arith.add front back
    (joined s).MakesSequence s v.kind vs := by
  intro joined
  obtain ⟨front, hfront, hfrontKind, hfrontSeq, hfirst, -⟩ :=
    makesSequence_slice (ε := Fault) hv none (some k)
  obtain ⟨back, hback, hbackKind, hbackSeq, hsecond, -⟩ :=
    makesSequence_slice (ε := Fault) (hv.later hfirst) (some k) none
  -- The second slice may have made a container, so the first one is read in a later store.
  obtain ⟨w, hw, hkind, hseq, hthird, hnew⟩ :=
    Arith.makesSequence_add (hfrontSeq.later hsecond) hbackSeq (hfrontKind.trans hbackKind.symm)
  rw [extract_append_extract] at hseq
  have hlater := hfirst.trans hsecond
  simp only [joined]
  rw [Action.bind_of_ok hfront, Action.bind_of_ok hback]
  exact ⟨w, hw, hkind.trans hfrontKind, hseq, hlater.trans hthird,
    fun r hr => hlater.size.trans (hnew r hr)⟩

section

attribute [local instance] Platform.standard

/-- A list that holds one row twice, cut before its last element. -/
theorem slices_join_shared_rows :
    let s : Store := ⟨#[.list [.int 1], .list [.list ⟨0⟩, .nil, .list ⟨0⟩]]⟩
    let joined : Action Fault Value := do
      let front ← slice (.list ⟨1⟩) none (some (-1))
      let back ← slice (.list ⟨1⟩) (some (-1)) none
      Arith.add front back
    (Value.list ⟨1⟩).IsSequence s [.list ⟨0⟩, .nil, .list ⟨0⟩] ∧
      (joined s).MakesSequence s .list [.list ⟨0⟩, .nil, .list ⟨0⟩] :=
  ⟨.list rfl, slices_join (.list rfl) (-1)⟩

end

end Subscript

end Dynval
