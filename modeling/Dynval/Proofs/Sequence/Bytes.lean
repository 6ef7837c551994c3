import Dynval.Platform
import Dynval.Proofs.Sequence.Items

/-!
# Values turned into bytes

A byte string and a byte array that are made of one value hold the same bytes, or both are refused
with faults of one kind. The elements of a list and the code points of a text are cut to their
remainders by 256. Bytes are kept as they are, also by way of the list of their items, so that
turning a value into bytes a second time changes nothing.
-/

namespace Dynval.Sequence

variable {s : Store} {v : Value} {data : List UInt8}

/-! ### Bytes of each kind of value -/

/-- A list gives the low bytes of its elements as integers. -/
lemma bytesFrom_list [Allocator] (op : Operation) (r : Ref) (s : Store) :
    bytesFrom op (.list r) s =
      ⟨.ok ((s.items r).map fun item => byteOf item.toInt), s,
        (s.items r).flatMap Value.toIntEvents⟩ := by
  rw [bytesFrom, Action.query_bind_apply, Action.mapM_apply_of_forall]
  intro item s
  rw [Action.bind_of_ok (a := item.toInt) (by rw [item.asInt_apply]), item.asInt_apply]
  simp

/-- A character gives its code point modulo 256. -/
lemma toNat_byteOf_char (c : Char) : (byteOf (Int64.ofNat c.toNat)).toNat = c.toNat % 256 := by
  have hcode : c.toNat < 2 ^ 32 := c.val.toNat_lt
  have hbyte := toNat_byteOf (Int64.ofNat c.toNat)
  rw [Int64.toInt_ofNat_of_lt (by omega)] at hbyte
  omega

/-- The list of the items of bytes gives these bytes again. -/
lemma bytesFrom_list_ofByte [Allocator] (op : Operation) {r : Ref}
    (h : s.items r = data.map Value.ofByte) : bytesFrom op (.list r) s = ⟨.ok data, s, []⟩ := by
  have hbyte (b : UInt8) : byteOf (Value.ofByte b).toInt = b := byteOf_ofNat b
  have hevents (b : UInt8) : (Value.ofByte b).toIntEvents = [] := rfl
  simp [bytesFrom_list, h, List.map_map, List.flatMap_map, Function.comp_def, hbyte, hevents]

/-- Bytes give themselves. -/
lemma bytesFrom_of_byteData? [Allocator] (op : Operation) (h : v.byteData? s = some data) :
    bytesFrom op v s = ⟨.ok data, s, []⟩ := by
  cases v with
  | byteArray r =>
    obtain rfl : s.data r = data := Option.some.inj h
    rfl
  | bytes =>
    obtain rfl := Option.some.inj h
    rfl
  | _ => cases h

/-- Whether there is room for zero bytes does not depend on the operation that asks. -/
lemma zeroBytes_cases [Allocator] (n : Int64) : (∃ data, ∀ op, zeroBytes op n = .ok data) ∨
    ∃ cause, ∀ op, zeroBytes op n = .error (.of op cause) := by
  by_cases hroom : Allocator.reserves .byte (repeatCount n) = true
  · refine Or.inl ⟨List.replicate (repeatCount n) 0, fun op => ?_⟩
    rw [zeroBytes, reserve, if_pos hroom]
    rfl
  · refine Or.inr ⟨.cannotAllocate (repeatCount n), fun op => ?_⟩
    rw [zeroBytes, reserve, if_neg hroom]
    rfl

/-- Which operation makes bytes of a value shows only in the fault. -/
lemma bytesFrom_cases [Allocator] (v : Value) (s : Store) :
    (∃ data, ∀ op, (bytesFrom op v s).result = .ok data) ∨
      ∃ cause, ∀ op, (bytesFrom op v s).result = .error (.of op cause) := by
  cases v with
  | list r => exact Or.inl ⟨_, fun op => by rw [bytesFrom_list]⟩
  | byteArray r => exact Or.inl ⟨_, fun _ => rfl⟩
  | bytes data => exact Or.inl ⟨_, fun _ => rfl⟩
  | str t => exact Or.inl ⟨_, fun _ => rfl⟩
  | bool b => exact zeroBytes_cases (boolInt b)
  | int n => exact zeroBytes_cases n
  | nil | float | map => exact Or.inr ⟨_, fun _ => rfl⟩

/-! ### Byte strings and byte arrays -/

/-- Whether the byte string and the byte array made of a value both hold the given bytes. -/
structure Ingests [Allocator] (s : Store) (v : Value) (data : List UInt8) : Prop where
  byteString : (byteStringFrom v s).result = .ok (.bytes data)
  byteArray : ∃ r, (byteArrayFrom v s).result = .ok (.byteArray r) ∧
    (byteArrayFrom v s).store.cell? r = some (.byteArray data)

/-- Bytes that any operation gets out of a value are in both kinds made of it. -/
lemma Ingests.of_bytesFrom [Allocator] (h : ∀ op, (bytesFrom op v s).result = .ok data) :
    Ingests s v data where
  byteString := by
    rw [byteStringFrom, Action.bind_of_ok (h .bytes)]
    rfl
  byteArray := by
    refine ⟨⟨(bytesFrom .bytearray v s).store.size⟩, ?_, ?_⟩
    · rw [byteArrayFrom, Action.bind_of_ok (h .bytearray), newByteArray_apply]
    · rw [byteArrayFrom, Action.bind_of_ok (h .bytearray), newByteArray_apply,
        Store.cell?_alloc_self]

lemma Ingests.of_byteData? [Allocator] (h : v.byteData? s = some data) : Ingests s v data :=
  .of_bytesFrom fun op => by rw [bytesFrom_of_byteData? op h]

/-- A value is turned into a byte string and a byte array alike, or into neither. -/
lemma ingests_or_refused [Allocator] (v : Value) (s : Store) : (∃ data, Ingests s v data) ∨
    ∃ cause, (byteStringFrom v s).result = .error (.of .bytes cause) ∧
      (byteArrayFrom v s).result = .error (.of .bytearray cause) := by
  rcases bytesFrom_cases v s with ⟨data, hdata⟩ | ⟨cause, hcause⟩
  · exact Or.inl ⟨data, .of_bytesFrom hdata⟩
  · refine Or.inr ⟨cause, ?_, ?_⟩
    · rw [byteStringFrom, Action.bind_of_error (hcause .bytes)]
    · rw [byteArrayFrom, Action.bind_of_error (hcause .bytearray)]

/-- The list of the items of bytes gives a byte string and a byte array with these bytes. -/
lemma ingests_items [Allocator] (h : v.byteData? s = some data) :
    ∃ l, ((items v >>= newList : Action Fault Value) s).result = .ok l ∧
      Ingests ((items v >>= newList : Action Fault Value) s).store l data := by
  have hitems : v.items? s = some (data.map Value.ofByte) := by
    cases v with
    | byteArray r => rw [← Option.some.inj h, Value.items?]
    | bytes => rw [← Option.some.inj h, Value.items?]
    | _ => cases h
  have hlist : (items v >>= newList : Action Fault Value) s =
      ⟨.ok (.list ⟨s.size⟩), (s.alloc (.list (data.map Value.ofByte))).2, []⟩ := by
    rw [Action.bind_of_ok (by rw [items_of_items? hitems]), items_of_items? hitems, newList_apply]
    rfl
  -- the new list stands behind all containers of the store and holds the items
  rw [hlist]
  refine ⟨_, rfl, .of_bytesFrom fun op => ?_⟩
  rw [bytesFrom_list_ofByte op (s.items_alloc_self _)]

/-- Every value is turned into a byte string and a byte array with the same bytes, or both are
refused with faults of one kind. A list gives the integers that its elements stand for and a text
its code points, each reduced modulo 256. Bytes give themselves, directly and by way of the list of
their items, and what bytes were made of a value gives these bytes again. -/
theorem bytes_hold_remainders_and_round_trip [Allocator] (s : Store) :
    (∀ v, (∃ data, Ingests s v data) ∨ ∃ f g, (byteStringFrom v s).result = .error f ∧
      (byteArrayFrom v s).result = .error g ∧ f.kind = g.kind) ∧
    (∀ r, ∃ data, Ingests s (.list r) data ∧
      (data.map fun b => (b.toNat : Int)) = (s.items r).map fun item => item.toInt.toInt % 256) ∧
    (∀ t : String, ∃ data, Ingests s (.str t) data ∧
      (data.map fun b => b.toNat) = t.toList.map fun c => c.toNat % 256) ∧
    (∀ b data, b.byteData? s = some data → Ingests s b data ∧
      ∃ l, ((items b >>= newList : Action Fault Value) s).result = .ok l ∧
        Ingests ((items b >>= newList : Action Fault Value) s).store l data) ∧
    (∀ v data, Ingests s v data → Ingests s (.bytes data) data ∧
      ∃ r, (byteArrayFrom v s).result = .ok (.byteArray r) ∧
        Ingests (byteArrayFrom v s).store (.byteArray r) data) := by
  refine ⟨fun v => ?_, fun r => ?_, fun t => ?_, fun b data h => ?_, fun v data h => ?_⟩
  · refine (ingests_or_refused v s).imp_right ?_
    rintro ⟨cause, hbytes, hbyteArray⟩
    exact ⟨_, _, hbytes, hbyteArray, rfl⟩
  · refine ⟨_, .of_bytesFrom fun op => by rw [bytesFrom_list], ?_⟩
    simp only [List.map_map, Function.comp_def, toNat_byteOf]
  · refine ⟨_, .of_bytesFrom fun op => rfl, ?_⟩
    simp only [List.map_map, Function.comp_def, toNat_byteOf_char]
  · exact ⟨.of_byteData? h, ingests_items h⟩
  · obtain ⟨r, hr, hcell⟩ := h.byteArray
    refine ⟨.of_byteData? rfl, r, hr, .of_byteData? ?_⟩
    rw [Value.byteData?, Store.data_of_cell? hcell]

section

attribute [local instance] Platform.standard

/-- A list of a negative integer, a large one, a numeral, a float beyond all integers and the list
itself, beside a byte array. -/
theorem mixed_list_and_byteArray_turned_into_bytes :
    let s : Store := ⟨#[.list [.int (-1), .int 300, .str " 42 ", .float (.infinity false),
      .list ⟨0⟩], .byteArray [7, 200]]⟩
    Ingests s (.list ⟨0⟩) [255, 44, 42, 255, 0] ∧
      (Value.byteArray ⟨1⟩).byteData? s = some [7, 200] ∧
      ∃ l, ((items (.byteArray ⟨1⟩) >>= newList : Action Fault Value) s).result = .ok l ∧
        Ingests ((items (.byteArray ⟨1⟩) >>= newList : Action Fault Value) s).store l [7, 200] := by
  intro s
  obtain ⟨-, hlists, -, hbytes, -⟩ := bytes_hold_remainders_and_round_trip s
  obtain ⟨data, hdata, hremainders⟩ := hlists ⟨0⟩
  have hexpected : data = [255, 44, 42, 255, 0] := by
    refine List.map_injective_iff.2 (fun a b h => UInt8.toNat_inj.1 (Int.ofNat_inj.1 h)) ?_
    rw [hremainders]
    decide +kernel
  exact ⟨hexpected ▸ hdata, rfl, (hbytes _ _ rfl).2⟩

end

end Dynval.Sequence
