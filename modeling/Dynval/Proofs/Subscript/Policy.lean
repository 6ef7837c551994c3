import Dynval.Operation.Apply
import Dynval.Proofs.Action.Basic

/-!
# The strict policy restricts the lenient one

Where a strict read or write succeeds, the lenient one does the same: it gives the same answer,
leaves the same store and reports the same events. Where a strict read raises a fault, the lenient
one reports it and answers the default of the container. A lenient read or write never fails.
-/

namespace Dynval

variable {ε : Type}

/-! ### Integers and bytes -/

/-- A value that is an integer stands for it, and there is nothing to report. -/
lemma Value.asInt_of_integer? {v : Value} {i : Int64} (h : v.integer? = some i) (s : Store) :
    (v.asInt : Action ε Int64) s = ⟨.ok i, s, []⟩ := by
  cases v <;> simp_all [integer?, asInt, toInt, toIntEvents, Action.report, Action.bind_apply]

lemma Value.asInt_apply (v : Value) (s : Store) :
    (v.asInt : Action ε Int64) s = ⟨.ok v.toInt, s, v.toIntEvents⟩ := by
  simp [asInt, Except.map]

lemma Value.asInt_succeeds (v : Value) : (v.asInt : Action ε Int64).Succeeds :=
  .bind (.report _) fun _ => .pure _

/-- An integer that is a byte leaves that byte. -/
lemma byteOf?_eq_some {i : Int64} {b : UInt8} (h : byteOf? i = some b) : byteOf i = b := by
  simp only [byteOf?, Option.ite_none_right_eq_some] at h
  exact Option.some.inj h.2

lemma toInt_ofNat_toNat (b : UInt8) : (Int64.ofNat b.toNat).toInt = b.toNat := by
  have hlt : b.toNat < 256 := b.toNat_lt
  exact Int64.toInt_ofNat_of_lt (by omega)

/-- The low eight bits of an integer are its remainder by 256, also below zero: the word of a
negative integer differs from it by a multiple of 256. -/
lemma toNat_byteOf (i : Int64) : ((byteOf i).toNat : Int) = i.toInt % 256 := by
  have hmask : (i &&& 255).toUInt64.toNat = i.toBitVec.toNat % 2 ^ 8 :=
    Nat.and_two_pow_sub_one_eq_mod _ 8
  have hword : i.toInt = if 2 * i.toBitVec.toNat < 2 ^ 64 then (i.toBitVec.toNat : Int)
      else i.toBitVec.toNat - (2 ^ 64 : Nat) := i.toBitVec.toInt_eq_toNat_cond
  rw [byteOf, UInt64.toNat_toUInt8, hmask]
  omega

/-- A byte is left as it is when its integer is cut to a byte. -/
lemma byteOf_ofNat (b : UInt8) : byteOf (Int64.ofNat b.toNat) = b := by
  have hlt : b.toNat < 256 := b.toNat_lt
  have hbyte := toNat_byteOf (Int64.ofNat b.toNat)
  rw [toInt_ofNat_toNat] at hbyte
  exact UInt8.toNat_inj.1 (by omega)

lemma byteOf?_ofNat (b : UInt8) : byteOf? (Int64.ofNat b.toNat) = some b := by
  have hlt : b.toNat < 256 := b.toNat_lt
  rw [byteOf?, if_pos, byteOf_ofNat]
  rw [toInt_ofNat_toNat]
  omega

/-- The byte that an integer leaves is its remainder by 256. -/
lemma Value.ofByte_byteOf (i : Int64) :
    Value.ofByte (byteOf i) = .int (Int64.ofInt (i.toInt % 256)) := by
  rw [ofByte, ofNat, ← Int64.ofInt_eq_ofNat, toNat_byteOf]

namespace Subscript

variable {container key v : Value} {index : Int64} {s : Store}

/-! ### Reading -/

lemma get_of_element? {w : Value} (h : container.element? s index = some w) :
    (get container index : Action ε Value) s = ⟨.ok w, s, []⟩ := by
  simp [get, h]

lemma get_of_element?_eq_none (h : container.element? s index = none) :
    (get container index : Action ε Value) s =
      ⟨.ok container.neutralDefault, s, [.readDefaulted container.kind index]⟩ := by
  simp [get, Except.map, h]

lemma getStrict_of_element? {w : Value} (h : container.element? s index = some w) :
    getStrict container index s = ⟨.ok w, s, []⟩ := by
  cases container with
  | map r => simp_all [getStrict, Value.element?]
  | list r | str t | byteArray r | bytes data => simp [getStrict, Value.sequenceLength?, h]
  | nil | bool b | int i | float x => cases h

lemma getStrict_of_element?_eq_none (h : container.element? s index = none) :
    ∃ f, (getStrict container index s).result = .error f := by
  cases container with
  | map r => simp_all [getStrict, Value.element?]
  | list r | str t | byteArray r | bytes data => simp [getStrict, Value.sequenceLength?, h]
  | nil | bool b | int i | float x => exact ⟨_, rfl⟩

/-- A strict read fails where there is no element. -/
lemma getStrict_eq_error_iff :
    (∃ f, (getStrict container index s).result = .error f) ↔
      container.element? s index = none := by
  constructor
  · rintro ⟨f, hf⟩
    cases h : container.element? s index with
    | none => rfl
    | some w =>
      rw [getStrict_of_element? h] at hf
      cases hf
  · exact getStrict_of_element?_eq_none

/-- Where a strict read succeeds the lenient one answers the same. -/
lemma getStrict_restricts_get (container : Value) (index : Int64) :
    (getStrict container index).Restricts (get container index) := by
  intro s w hw
  cases h : container.element? s index with
  | some u => rw [get_of_element? h, getStrict_of_element? h]
  | none =>
    obtain ⟨f, hf⟩ := getStrict_of_element?_eq_none h
    rw [hf] at hw
    cases hw

lemma get_succeeds (container : Value) (index : Int64) :
    (get container index : Action ε Value).Succeeds := by
  intro s
  cases h : container.element? s index with
  | some w => exact ⟨w, by rw [get_of_element? h]⟩
  | none => exact ⟨_, by rw [get_of_element?_eq_none h]⟩

/-- Asking for an integer restricts converting to one. -/
lemma restricts_of_integer? {α : Type} {strict lenient : Int64 → Action Fault α}
    (h : ∀ i, (strict i).Restricts (lenient i)) (key : Value) (f : Fault) :
    (match key.integer? with
      | some i => strict i
      | none => Action.fail f).Restricts (key.asInt >>= lenient) := by
  intro s a ha
  cases hkey : key.integer? with
  | none =>
    rw [hkey] at ha
    cases ha
  | some i =>
    have hint := key.asInt_of_integer? (ε := Fault) hkey s
    rw [hkey] at ha
    rw [Action.bind_of_ok (a := i) (by rw [hint]), hint, h i s a ha]
    rfl

/-- Where an item can be read strictly the lenient read answers the same. -/
lemma getItemStrict_restricts_getItem [FloatPrinter] (container key : Value) :
    (getItemStrict container key).Restricts (getItem container key) := by
  cases container with
  | map r =>
    intro s w hw
    cases hkey : Key.ofValue? key with
    | none => simp [getItemStrict, Key.ofValue, Action.bind_apply, hkey] at hw
    | some k =>
      cases hfind : (s.entries r).find? k with
      | none => simp [getItemStrict, Key.ofValue, Action.bind_apply, hkey, hfind] at hw
      | some u => simp [getItem, getItemStrict, Key.ofValue, Action.bind_apply, hkey, hfind]
  | _ => exact restricts_of_integer? (getStrict_restricts_get _) key _

lemma getItem_succeeds (container key : Value) :
    (getItem container key : Action ε Value).Succeeds := by
  cases container with
  | map r => exact .bind (.query _) fun _ => .pure _
  | _ => exact .bind key.asInt_succeeds fun i => get_succeeds _ i

/-! ### Writing -/

/-- A strict write is refused and changes nothing, or it is the lenient write. -/
lemma setStrict_cases [FloatPrinter] (container : Value) (index : Int64) (v : Value) (s : Store) :
    (∃ f, setStrict container index v s = ⟨.error f, s, []⟩) ∨
      set container index v s = setStrict container index v s := by
  cases container with
  | list r =>
    cases hp : position? index (s.items r).length with
    | none => simp [setStrict, setStrict.inside, Action.bind_apply, hp]
    | some p => simp [set, setStrict, setStrict.inside, Action.bind_apply, hp]
  | byteArray r =>
    cases hp : position? index (s.data r).length with
    | none => simp [setStrict, setStrict.inside, Action.bind_apply, hp]
    | some p =>
      cases hb : v.integer?.bind byteOf? with
      | none => simp [setStrict, setStrict.inside, Action.bind_apply, hp, hb]
      | some b =>
        -- an integer that is a byte leaves itself when it is cut to a byte
        obtain ⟨i, hi, hib⟩ := Option.bind_eq_some_iff.1 hb
        simp [set, setStrict, setStrict.inside, Action.bind_apply, hp, hb,
          v.asInt_of_integer? hi, byteOf?_eq_some hib]
  | map r => exact Or.inr rfl
  | _ => exact Or.inl ⟨_, rfl⟩

/-- Where a strict write succeeds the lenient one does the same. -/
lemma setStrict_restricts_set [FloatPrinter] (container : Value) (index : Int64) (v : Value) :
    (setStrict container index v).Restricts (set container index v) := by
  intro s u hu
  obtain ⟨f, hf⟩ | hsame := setStrict_cases container index v s
  · rw [hf] at hu
    cases hu
  · exact hsame

lemma set_succeeds (container : Value) (index : Int64) (v : Value) :
    (set container index v : Action ε Unit).Succeeds := by
  cases container with
  | list r =>
    refine .bind (.query _) fun p => ?_
    cases p with
    | none => exact .report _
    | some p => exact .modify _
  | byteArray r =>
    refine .bind (.query _) fun p => ?_
    cases p with
    | none => exact .report _
    | some p => exact .bind v.asInt_succeeds fun _ => .modify _
  | map r => exact .modify _
  | _ => exact .report _

end Subscript

namespace Operation

/-- Where a strict call succeeds the lenient one does the same. -/
lemma apply_restricts [Platform] (op : Operation) (args : List Value) :
    (op.apply args .strict).Restricts (op.apply args .lenient) := by
  cases op with
  | getIndex => exact .bind (.refl _) fun i => Subscript.getStrict_restricts_get _ i
  | getItem => exact Subscript.getItemStrict_restricts_getItem _ _
  | setIndex =>
    refine .bind (.refl _) fun i => ?_
    exact .bind (Subscript.setStrict_restricts_set _ i _) fun _ => .refl _
  | _ => exact .refl _

/-- The policy matters only to reading and writing by subscript. -/
lemma apply_lenient_eq [Platform] {op : Operation} (hop : op ∉ [getIndex, getItem, setIndex])
    (args : List Value) : op.apply args .lenient = op.apply args .strict := by
  cases op with
  | getIndex | getItem | setIndex => simp at hop
  | _ => rfl

/-- Lenient reads and writes never fail. -/
lemma apply_lenient_succeeds [Platform] {op : Operation} (hop : op ∈ [getIndex, getItem, setIndex])
    (args : List Value) : (op.apply args .lenient).Succeeds := by
  cases op with
  | getIndex => exact .bind (Value.asInt_succeeds _) fun i => Subscript.get_succeeds _ i
  | getItem => exact Subscript.getItem_succeeds _ _
  | setIndex =>
    refine .bind (Value.asInt_succeeds _) fun i => ?_
    exact .bind (Subscript.set_succeeds _ i _) fun _ => .pure _
  | _ => simp at hop

/-- A call that succeeds under the strict policy has the same outcome under the lenient one: the
same value, store and events. The policy matters only to reading and writing by subscript, which
never fail under the lenient policy, and a lenient read answers the default of the container and
reports it exactly where the strict read of the same element raises a fault. -/
theorem apply_strict_restricts_lenient [Platform] (op : Operation) (args : List Value) (s : Store) :
    (∀ v, (op.apply args .strict s).result = .ok v →
      op.apply args .lenient s = op.apply args .strict s) ∧
    (op ∉ [getIndex, getItem, setIndex] →
      op.apply args .lenient s = op.apply args .strict s) ∧
    (op ∈ [getIndex, getItem, setIndex] →
      ∃ v, (op.apply args .lenient s).result = .ok v) ∧
    ∀ (container : Value) (index : Int64),
      let read : Outcome Fault Value := Subscript.get container index s
      let fails := ∃ f, (Subscript.getStrict container index s).result = .error f
      (read = ⟨.ok container.neutralDefault, s, [.readDefaulted container.kind index]⟩ ↔ fails) ∧
        (.readDefaulted container.kind index ∈ read.events ↔ fails) := by
  refine ⟨apply_restricts op args s, fun hop => congrFun (apply_lenient_eq hop args) s,
    fun hop => apply_lenient_succeeds hop args s, ?_⟩
  intro container index
  dsimp only
  rw [Subscript.getStrict_eq_error_iff]
  cases h : container.element? s index with
  | none => simp [Subscript.get_of_element?_eq_none h]
  | some w => simp [Subscript.get_of_element? h]

end Operation

end Dynval
