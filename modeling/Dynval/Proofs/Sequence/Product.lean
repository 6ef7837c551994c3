import Dynval.Proofs.Sequence.Repeat
import Dynval.Proofs.Subscript.Slice
import Dynval.Proofs.Text.Scalars

/-!
# The elements of repeated sequences

A sequence times an integer holds the elements of the sequence in turn, as often as the integer
says, whatever the kind of the sequence and the order of the operands. The bytes of a text are
repeated, not its characters, and then read as text again; no byte is lost or replaced, because the
bytes of a repeated text are the repeated bytes (`toList_decode_repeatList`).
-/

namespace Dynval

/-! ### Lists repeated -/

namespace Sequence

variable {α β : Type}

/-- A negative number of repetitions counts as none. -/
lemma repeatCount_eq (n : Int64) : repeatCount n = (max n.toInt 0).toNat := by
  unfold repeatCount
  omega

lemma flatMap_repeatList (f : α → List β) (count : Nat) (xs : List α) :
    (repeatList count xs).flatMap f = repeatList count (xs.flatMap f) := by
  induction count with
  | zero => rfl
  | succ count ih => rw [repeatList_succ, repeatList_succ, List.flatMap_append, ih]

/-- A repetition has the product of the numbers. -/
lemma length_repeatList (count : Nat) (xs : List α) :
    (repeatList count xs).length = xs.length * count := by
  induction count with
  | zero => rfl
  | succ count ih => rw [repeatList_succ, List.length_append, ih, Nat.mul_succ, Nat.add_comm]

/-- Repeated elements come round in turn. -/
lemma getElem?_repeatList {count k : Nat} {xs : List α} (hk : k < xs.length * count) :
    (repeatList count xs)[k]? = xs[k % xs.length]? := by
  induction count generalizing k with
  | zero => exact absurd hk (Nat.not_lt_zero k)
  | succ count ih =>
    rw [repeatList_succ]
    rcases Nat.lt_or_ge k xs.length with hlt | hge
    · rw [List.getElem?_append_left hlt, Nat.mod_eq_of_lt hlt]
    · rw [List.getElem?_append_right hge, ih, Nat.mod_eq_sub_mod hge]
      rw [Nat.mul_succ] at hk
      omega

/-- Elements that go with repeated ones go with them in turn. -/
lemma exists_getElem?_of_forall₂ {R : α → β → Prop} {count k : Nat} {xs : List α} {ys : List β}
    (h : List.Forall₂ R (repeatList count xs) ys) (hk : k < xs.length * count) :
    ∃ x y, xs[k % xs.length]? = some x ∧ ys[k]? = some y ∧ R x y := by
  have hlt : k < (repeatList count xs).length := by rwa [length_repeatList]
  have hlt' : k < ys.length := by rwa [← h.length_eq]
  refine ⟨_, _, ?_, List.getElem?_eq_getElem hlt', h.get hlt hlt'⟩
  rw [← getElem?_repeatList hk]
  exact List.getElem?_eq_getElem hlt

end Sequence

/-! ### Representations -/

/-- How many elements the representation of a sequence has: the bytes of a text, and the elements
of every other sequence. -/
def Value.storage (s : Store) : Value → Nat
  | .str t => t.utf8ByteSize
  | .list r => (s.items r).length
  | .byteArray r => (s.data r).length
  | .bytes data => data.length
  | _ => 0

/-- What the representation of a sequence is made of. -/
def Value.slot : Value → Slot
  | .list _ => .value
  | _ => .byte

namespace Value.IsSequence

variable {s : Store} {v : Value} {vs : List Value}

lemma isRepeatable (hv : v.IsSequence s vs) : Arith.isRepeatable v := by
  cases hv <;> rfl

/-- Only an empty sequence takes no room. -/
lemma storage_eq_zero_iff (hv : v.IsSequence s vs) : v.storage s = 0 ↔ vs = [] := by
  cases hv with
  | list hcell => simp [storage, Store.items_of_cell? hcell]
  | str t => simp [storage]
  | byteArray hcell => simp [storage, Store.data_of_cell? hcell]
  | bytes data => simp [storage]

end Value.IsSequence

namespace Arith

open Sequence

variable {s : Store} {v : Value} {vs : List Value} {count : Nat}

/-! ### Repetition of each kind -/

lemma repeatBytes_eq {α : Type} (count : Nat) (xs : List α) :
    repeatSequence.repeatBytes count xs = repeatList count xs := by
  unfold repeatSequence.repeatBytes
  split_ifs with hempty
  · rw [List.isEmpty_iff.1 hempty, repeatList_nil]
  · rfl

/-- The repeated bytes of a text are the bytes of the repeated characters. -/
lemma toList_decode_repeatList (count : Nat) (t : String) :
    (Text.decode (repeatList count (Text.utf8 t))).toList = repeatList count t.toList := by
  rw [Text.utf8_eq, ← flatMap_repeatList, Text.decode, Text.decodeChars_flatMap,
    String.toList_ofList]

/-- Without room a repetition tells how many elements it would have, and leaves the store alone. -/
lemma repeatSequence_of_not_hasRoom [Allocator] (hv : v.IsSequence s vs)
    (hroom : ¬HasRoom v.slot (v.storage s * count)) :
    repeatSequence v count s =
      ⟨.error (.of .mul (.cannotAllocate (wideMul (v.storage s) count))), s, []⟩ := by
  cases hv with
  | @list r _ hcell =>
    have hitems := (repeatItems_apply .mul (s.items r) count s).trans (if_neg hroom)
    simp only [repeatSequence, Action.query_bind_apply]
    rw [Action.bind_of_error (by rw [hitems]), hitems]
    rfl
  | str t | bytes data =>
    exact (reserveRepeated_bind_apply ..).trans (if_neg hroom)
  | byteArray hcell =>
    simp only [repeatSequence, Action.query_bind_apply]
    exact (reserveRepeated_bind_apply ..).trans (if_neg hroom)

/-- Values that are no containers are their own copies. -/
lemma forall₂_isCopy_map {α : Type} {f : α → Value} (hf : ∀ a, (f a).kind.isComposite = false)
    (s t : Store) (as : List α) : List.Forall₂ (s.IsCopy t) (as.map f) (as.map f) := by
  refine List.forall₂_same.2 fun x hx => ?_
  obtain ⟨a, -, rfl⟩ := List.mem_map.1 hx
  exact .scalar (hf a)

/-- With room a repetition is a new sequence of copies of the elements in turn. -/
lemma repeatSequence_of_hasRoom [Allocator] (hv : v.IsSequence s vs)
    (hroom : HasRoom v.slot (v.storage s * count)) :
    ∃ ws, (repeatSequence v count s).MakesSequence s v.kind ws ∧
      List.Forall₂ (s.IsCopy (repeatSequence v count s).store) (repeatList count vs) ws := by
  cases hv with
  | @list r _ hcell =>
    have hitems := (repeatItems_apply .mul (s.items r) count s).trans (if_pos hroom)
    obtain ⟨ws, hws, hcopied⟩ :=
      copiedTo_mapM_independentCopy (ε := Fault) (repeatList count (s.items r)) s
    rw [← hitems] at hws hcopied
    have happly : repeatSequence (.list r) count s =
        (repeatItems .mul (s.items r) count >>= newList) s := rfl
    -- the new list is made last, in the store that holds all copies
    rw [happly, Action.bind_of_ok hws, ← Store.items_of_cell? hcell]
    refine ⟨ws, (makesSequence_newList ws _).earlier hcopied.later, ?_⟩
    exact (hcopied.add (.alloc _ _)).copies
  | str t =>
    have happly : repeatSequence (.str t) count s =
        (pure (.str (Text.decode (repeatList count (Text.utf8 t)))) : Action Fault Value) s := by
      rw [← repeatBytes_eq]
      exact (reserveRepeated_bind_apply ..).trans (if_pos hroom)
    rw [happly, ← map_repeatList, ← toList_decode_repeatList]
    exact ⟨_, makesSequence_str _ s, forall₂_isCopy_map (fun _ => rfl) ..⟩
  | @byteArray r data hcell =>
    have happly : repeatSequence (.byteArray r) count s =
        (newByteArray (repeatList count (s.data r)) : Action Fault Value) s := by
      rw [← repeatBytes_eq]
      exact (reserveRepeated_bind_apply ..).trans (if_pos hroom)
    rw [happly, ← map_repeatList, Store.data_of_cell? hcell]
    exact ⟨_, makesSequence_newByteArray _ s, forall₂_isCopy_map (fun _ => rfl) ..⟩
  | bytes data =>
    have happly : repeatSequence (.bytes data) count s =
        (pure (.bytes (repeatList count data)) : Action Fault Value) s := by
      rw [← repeatBytes_eq]
      exact (reserveRepeated_bind_apply ..).trans (if_pos hroom)
    rw [happly, ← map_repeatList]
    exact ⟨_, makesSequence_bytes _ s, forall₂_isCopy_map (fun _ => rfl) ..⟩

/-! ### Products -/

/-- A sequence times an integer, in either order, is a new sequence of its kind that holds its
elements in turn, as often as the integer says, containers being copied. If the sequence is empty
or the integer is not positive, it is empty. If there is no room, the fault names the number of
elements that were asked for, and nothing is changed. -/
theorem product_holds_elements_in_turn [Platform] {c : Value} {n : Int64} (hv : v.IsSequence s vs)
    (hsize : v.storage s ≤ maxSize) (hc : c.integer? = some n) :
    let m := (max n.toInt 0).toNat
    let out := mul v c s
    mul c v = mul v c ∧
    (vs = [] ∨ m = 0 → out.MakesSequence s v.kind []) ∧
    (HasRoom v.slot (m * v.storage s) →
      ∃ ws, out.MakesSequence s v.kind ws ∧ ws.length = vs.length * m ∧
        ∀ k < vs.length * m, ∃ x y, vs[k % vs.length]? = some x ∧ ws[k]? = some y ∧
          s.IsCopy out.store x y) ∧
    (¬HasRoom v.slot (m * v.storage s) →
      ∃ f, out = ⟨.error f, s, []⟩ ∧ f = .of .mul (.cannotAllocate (m * v.storage s)) ∧
        f.name = "MemoryError") := by
  have hrepeatable := hv.isRepeatable
  rw [mul_left hrepeatable hc, mul_right hrepeatable hc, repeatCount_eq]
  intro m out
  refine ⟨rfl, fun hempty => ?_, fun hroom => ?_, fun hroom => ?_⟩
  · have hnothing : v.storage s * m = 0 := by
      rwa [Nat.mul_eq_zero, hv.storage_eq_zero_iff]
    have hnil : repeatList m vs = [] := by
      rcases hempty with rfl | hm
      · exact repeatList_nil m
      · rw [hm, repeatList_zero]
    have hroom : HasRoom v.slot (v.storage s * m) := hnothing ▸ hasRoom_zero v.slot
    obtain ⟨ws, hmade, hcopies⟩ := repeatSequence_of_hasRoom hv hroom
    rw [hnil, List.forall₂_nil_left_iff] at hcopies
    exact hcopies ▸ hmade
  · rw [Nat.mul_comm] at hroom
    obtain ⟨ws, hmade, hcopies⟩ := repeatSequence_of_hasRoom hv hroom
    refine ⟨ws, hmade, ?_, fun k hk => exists_getElem?_of_forall₂ hcopies hk⟩
    rw [← hcopies.length_eq, length_repeatList]
  · have hm : m ≤ maxSize := by
      have hlt := n.toInt_lt
      unfold maxSize
      omega
    have hwide : wideMul (v.storage s) m = v.storage s * m := wideMul_of_le hsize hm
    rw [Nat.mul_comm] at hroom ⊢
    exact ⟨_, (repeatSequence_of_not_hasRoom hv hroom).trans (by rw [hwide]), rfl, rfl⟩

section

attribute [local instance] Platform.standard

/-- A list that holds itself, repeated twice and as often as an integer can say. -/
theorem product_of_list_in_itself :
    let s : Store := ⟨#[.list [.str "é", .list ⟨0⟩, .nil]]⟩
    let v : Value := .list ⟨0⟩
    v.IsSequence s [.str "é", .list ⟨0⟩, .nil] ∧ v.storage s ≤ maxSize ∧
      (∃ ws, (mul (.int 2) v s).MakesSequence s .list ws ∧ ws.length = 6 ∧
        ws[3]? = some (.str "é")) ∧
      (mul v (.int Int64.maxValue) s).result =
        .error (.of .mul (.cannotAllocate 27670116110564327421)) := by
  intro s v
  have hv : v.IsSequence s [.str "é", .list ⟨0⟩, .nil] := .list rfl
  have hsize : v.storage s ≤ maxSize := by decide
  obtain ⟨hcomm, -, htwice, -⟩ :=
    product_holds_elements_in_turn hv hsize (n := 2) (c := .int 2) rfl
  obtain ⟨-, -, -, hmany⟩ :=
    product_holds_elements_in_turn hv hsize (n := Int64.maxValue) (c := .int Int64.maxValue) rfl
  refine ⟨hv, hsize, ?_, ?_⟩
  · obtain ⟨ws, hmade, hlength, hturn⟩ := htwice (by decide)
    obtain ⟨x, y, hx, hy, hcopy⟩ := hturn 3 (by decide)
    obtain rfl : Value.str "é" = x := Option.some.inj hx
    obtain rfl : y = .str "é" := hcopy
    exact ⟨ws, hcomm ▸ hmade, hlength, hy⟩
  · obtain ⟨f, hout, rfl, -⟩ := hmany (by decide)
    rw [hout]
    rfl

end

end Arith

end Dynval
