import Dynval.Platform
import Dynval.Proofs.Number.Rational
import Dynval.Proofs.Sequence.Items
import Dynval.Proofs.Text.Search

/-!
# Membership agrees with iteration

Each kind of container is searched in its own way: a list by comparing its elements, a map by its
keys, bytes by a byte or by their parts, a text by its bytes. All ways are about the items that
iterating the container gives: an item that counts as equal is among them, or the items of a byte
string or of a text stand there in a row.
-/

namespace Dynval

variable {s : Store} {c x : Value} {vs ws : List Value} {data needle : List UInt8}

lemma byteOf?_eq_some_iff {i : Int64} {b : UInt8} :
    byteOf? i = some b ↔ i = Int64.ofNat b.toNat := by
  constructor
  · intro h
    simp only [byteOf?, Option.ite_none_right_eq_some, Option.some.injEq] at h
    obtain ⟨hrange, rfl⟩ := h
    apply Int64.toInt_inj.1
    rw [toInt_ofNat_toNat, toNat_byteOf]
    omega
  · rintro rfl
    exact byteOf?_ofNat b

namespace Value

/-! ### Each kind of container -/

/-- Whether a test ends with an answer, which says whether a statement holds. -/
def Answers (test : Except Fault Bool) (p : Prop) : Prop :=
  ∃ b : Bool, test = .ok b ∧ (b ↔ p)

/-- A list holds what counts as equal to one of its elements. -/
lemma contains_list [FloatPrinter] (r : Ref) (x : Value) :
    Answers ((Value.list r).contains s x) (∃ y ∈ s.items r, y.isOrEquals s x) :=
  ⟨_, rfl, List.any_eq_true⟩

/-- A map holds a value if the key of the value counts as equal to one of its keys, which are keys
of values themselves. -/
lemma contains_map [FloatPrinter] (hs : s.Keyed) (r : Ref) (hx : x.kind.isComposite = false) :
    Answers ((Value.map r).contains s x)
      (∃ y ∈ (s.entries r).keys.map Key.toValue, y.isOrEquals s x) := by
  obtain ⟨k, hk⟩ := Key.exists_ofValue? hx
  refine ⟨_, by rw [contains, Key.ofValue_eq_ok_iff.2 hk]; rfl, ?_⟩
  rw [Entries.isSome_find?_iff]
  have hequal {l : Key} (hl : l ∈ (s.entries r).keys) : l = k ↔ l.toValue.isOrEquals s x :=
    Key.ofValue?_eq_iff ((hs.entries r).canonical l hl) hk s
  simp only [List.mem_map, exists_exists_and_eq_and]
  constructor
  · intro hmem
    exact ⟨k, hmem, (hequal hmem).1 rfl⟩
  · rintro ⟨l, hl, hlx⟩
    rwa [← (hequal hl).2 hlx]

/-- A container cannot be looked for among keys. -/
lemma contains_map_of_isComposite [FloatPrinter] (r : Ref) (hx : x.kind.isComposite) :
    ∃ f, (Value.map r).contains s x = .error f ∧ f.name = "TypeError" := by
  refine ⟨⟨.hash, .unhashable x.kind⟩, ?_, rfl⟩
  rw [contains, Key.ofValue, Key.ofValue?_eq_none_iff.2 hx]
  rfl

lemma contains_of_byteData? [FloatPrinter] (hc : c.byteData? s = some data) (x : Value) :
    c.contains s x = bytesContain s data x := by
  cases c <;> cases hc <;> rfl

lemma items?_of_byteData? (hc : c.byteData? s = some data) :
    c.items? s = some (data.map ofByte) := by
  cases c <;> cases hc <;> rfl

/-- A byte equals the integer of its value. -/
lemma ofByte_equals_iff {i : Int64} (hx : x.integer? = some i) (b : UInt8) :
    (ofByte b).equals s x ↔ Int64.ofNat b.toNat = i := by
  have hb : (ofByte b).integer? = some (Int64.ofNat b.toNat) := rfl
  rw [equals_leaf_iff rfl, facet_of_integer? hb, facet_of_integer? hx]
  constructor
  · rintro ⟨hfacet, -⟩
    exact Key.units?_int_injective (Facet.number.inj hfacet)
  · rintro rfl
    exact ⟨rfl, rfl⟩

/-- Bytes hold an integer that is one of them. -/
lemma bytesContain_integer [FloatPrinter] {i : Int64} (hx : x.integer? = some i)
    (hrange : 0 ≤ i.toInt ∧ i.toInt ≤ 255) :
    Answers (bytesContain s data x) (∃ y ∈ data.map ofByte, y.equals s x) := by
  have hbyte : byteOf? i = some (byteOf i) := if_pos (by omega)
  refine ⟨data.contains (byteOf i), by simp only [bytesContain, hx, hbyte], ?_⟩
  simp only [List.contains_iff_mem, List.mem_map, exists_exists_and_eq_and,
    ofByte_equals_iff hx]
  constructor
  · intro hmem
    exact ⟨_, hmem, (byteOf?_eq_some_iff.1 hbyte).symm⟩
  · rintro ⟨b, hb, rfl⟩
    rwa [byteOf_ofNat]

/-- An integer that is no byte cannot be looked for in bytes. -/
lemma bytesContain_outside [FloatPrinter] {i : Int64} (hx : x.integer? = some i)
    (hrange : ¬(0 ≤ i.toInt ∧ i.toInt ≤ 255)) :
    ∃ f, bytesContain s data x = .error f ∧ f.name = "ValueError" := by
  have hbyte : byteOf? i = none := if_neg (by omega)
  exact ⟨.of .contains (.byteOutOfRange (.ofValue s x)),
    by simp only [bytesContain, hx, hbyte], rfl⟩

/-- No part of the length of no bytes is looked for, and the parts of any other length are all there
are. -/
lemma holdsBytes_iff : holdsBytes data needle ↔ needle <:+: data := by
  unfold holdsBytes
  split_ifs with hneedle
  · simp [hneedle]
  · rw [List.contains_iff_mem, mem_windows_length_iff]

lemma ofByte_injective : Function.Injective ofByte := by
  intro b d h
  have hbyte : byteOf? (Int64.ofNat b.toNat) = some d := by
    rw [Value.int.inj h]
    exact byteOf?_ofNat d
  exact Option.some.inj ((byteOf?_ofNat b).symm.trans hbyte)

lemma ofChar_injective : Function.Injective ofChar := by
  intro c d h
  simpa using congrArg String.toList (Value.str.inj h)

/-- Parts of a list are found among the values of its elements. -/
lemma map_split_iff {α : Type} {f : α → Value} (hf : f.Injective) {xs part : List α} :
    (∃ p q, xs.map f = p ++ part.map f ++ q) ↔ part <:+: xs := by
  constructor
  · rintro ⟨p, q, hsplit⟩
    obtain ⟨part', hpart, heq⟩ := List.infix_map_iff.1 ⟨p, q, hsplit.symm⟩
    rwa [List.map_injective_iff.2 hf heq]
  · rintro ⟨p, q, rfl⟩
    exact ⟨p.map f, q.map f, by rw [List.map_append, List.map_append]⟩

/-- Bytes hold others that stand in them without gaps. -/
lemma bytesContain_bytes [FloatPrinter] (hx : x.byteData? s = some needle) :
    Answers (bytesContain s data x) (∃ p q, data.map ofByte = p ++ needle.map ofByte ++ q) := by
  have hint : x.integer? = none := by
    cases x <;> simp_all [byteData?, integer?]
  refine ⟨holdsBytes data needle, by simp only [bytesContain, hint, hx], ?_⟩
  rw [holdsBytes_iff, map_split_iff ofByte_injective]

/-- A text holds another one that stands in it without gaps. -/
lemma contains_str [FloatPrinter] (t part : String) :
    Answers ((Value.str t).contains s (.str part))
      (∃ p q, t.toList.map ofChar = p ++ part.toList.map ofChar ++ q) := by
  refine ⟨Text.contains t part, rfl, ?_⟩
  rw [Text.contains_iff, map_split_iff ofChar_injective]

/-! ### One membership -/

lemma exists_byteData? (hc : c.kind = .bytes ∨ c.kind = .byteArray) :
    ∃ data, c.byteData? s = some data := by
  cases c <;> simp_all [kind, byteData?]

/-- Whether iterating a value gives the given items, and does nothing else. -/
def HasItems (s : Store) (v : Value) (vs : List Value) : Prop :=
  (Sequence.items v : Action Fault (List Value)) s = ⟨.ok vs, s, []⟩

lemma hasItems_of_items? (h : c.items? s = some vs) : c.HasItems s vs :=
  Sequence.items_of_items? h

/-- A value has one list of items. -/
lemma HasItems.unique (hvs : c.HasItems s vs) (hws : c.HasItems s ws) : vs = ws :=
  Except.ok.inj (congrArg Outcome.result (hvs.symm.trans hws))

/-- Every list, map, byte string, byte array and text has items. A list holds a value if one of its
items counts as equal to it. So does a map for a value that is no container; a container raises a
type fault there. Bytes hold an integer from 0 to 255 if one of their items equals it, and raise a
value fault for any other one. Bytes hold bytes, and a text holds a text, if the items of the one
stand in a row among the items of the other. The maps of the store are well keyed, as all maps are
that a program makes. -/
theorem contains_agrees_with_items [FloatPrinter] (hs : s.Keyed) (c x : Value) :
    (c.kind = .list → ∃ vs, c.HasItems s vs ∧
      Answers (c.contains s x) (∃ y ∈ vs, y.isOrEquals s x)) ∧
    (c.kind = .map → ∃ vs, c.HasItems s vs ∧
      (x.kind.isComposite = false → Answers (c.contains s x) (∃ y ∈ vs, y.isOrEquals s x)) ∧
      (x.kind.isComposite → ∃ f, c.contains s x = .error f ∧ f.name = "TypeError")) ∧
    (c.kind = .bytes ∨ c.kind = .byteArray → ∃ vs, c.HasItems s vs ∧
      (∀ i : Int64, x.integer? = some i →
        (0 ≤ i.toInt ∧ i.toInt ≤ 255 →
          Answers (c.contains s x) (∃ y ∈ vs, y.equals s x)) ∧
        (¬(0 ≤ i.toInt ∧ i.toInt ≤ 255) →
          ∃ f, c.contains s x = .error f ∧ f.name = "ValueError")) ∧
      (x.kind = .bytes ∨ x.kind = .byteArray → ∃ ws, x.HasItems s ws ∧
        Answers (c.contains s x) (∃ p q, vs = p ++ ws ++ q))) ∧
    (c.kind = .str → x.kind = .str → ∃ vs ws, c.HasItems s vs ∧ x.HasItems s ws ∧
      Answers (c.contains s x) (∃ p q, vs = p ++ ws ++ q)) := by
  refine ⟨fun hc => ?_, fun hc => ?_, fun hc => ?_, fun hc hx => ?_⟩
  · cases c <;> cases hc
    exact ⟨_, hasItems_of_items? rfl, contains_list _ x⟩
  · cases c <;> cases hc
    exact ⟨_, hasItems_of_items? rfl, contains_map hs _, contains_map_of_isComposite _⟩
  · obtain ⟨data, hdata⟩ := exists_byteData? (s := s) hc
    rw [contains_of_byteData? hdata]
    refine ⟨_, hasItems_of_items? (items?_of_byteData? hdata),
      fun i hi => ⟨bytesContain_integer hi, bytesContain_outside hi⟩, fun hx => ?_⟩
    obtain ⟨needle, hneedle⟩ := exists_byteData? (s := s) hx
    exact ⟨_, hasItems_of_items? (items?_of_byteData? hneedle), bytesContain_bytes hneedle⟩
  · cases c <;> cases hc
    cases x <;> cases hx
    exact ⟨_, _, hasItems_of_items? rfl, hasItems_of_items? rfl, contains_str _ _⟩

section

attribute [local instance] Platform.standard

/-- A map holds a truth value that counts as equal to a float it was written under. Bytes hold the
bytes of a byte array, and do not when these are longer. -/
theorem contains_in_map_and_bytes :
    let s := MapChange.runAll ⟨0⟩ ⟨#[.map [], .byteArray [2, 3]]⟩
      [.insert (.float .one) (.str "a"), .setItem (.bytes [7]) (.map ⟨0⟩)]
    s.Keyed ∧ (Value.map ⟨0⟩).HasItems s [.int 1, .bytes [7]] ∧
      (Value.map ⟨0⟩).contains s (.bool true) = .ok true ∧
      (Value.bytes [1, 2, 3]).contains s (.byteArray ⟨1⟩) = .ok true ∧
      (Value.bytes [3]).contains s (.byteArray ⟨1⟩) = .ok false := by
  intro s
  have hs : s.Keyed := (Store.Made.runAll (.newByteArray (.newMap .empty) [2, 3]) _ _).keyed
  have hkeys : (Value.map ⟨0⟩).HasItems s [.int 1, .bytes [7]] :=
    hasItems_of_items? (by decide +kernel)
  have hbytes : (Value.byteArray ⟨1⟩).HasItems s [.int 2, .int 3] :=
    hasItems_of_items? (by decide +kernel)
  have hfound : (Value.map ⟨0⟩).contains s (.bool true) = .ok true := by
    obtain ⟨-, hmap, -⟩ := contains_agrees_with_items hs (.map ⟨0⟩) (.bool true)
    obtain ⟨vs, hvs, hmember, -⟩ := hmap rfl
    obtain rfl := hvs.unique hkeys
    obtain ⟨b, hb, hfound⟩ := hmember rfl
    obtain rfl : b = true := hfound.2 ⟨.int 1, by simp, by decide +kernel⟩
    exact hb
  have hlong : (Value.bytes [1, 2, 3]).contains s (.byteArray ⟨1⟩) = .ok true := by
    obtain ⟨-, -, hpart, -⟩ := contains_agrees_with_items hs (.bytes [1, 2, 3]) (.byteArray ⟨1⟩)
    obtain ⟨vs, hvs, -, hrow⟩ := hpart (Or.inl rfl)
    obtain ⟨ws, hws, b, hb, hfound⟩ := hrow (Or.inr rfl)
    obtain rfl := hws.unique hbytes
    obtain rfl : vs = [.int 1, .int 2, .int 3] := hvs.unique (hasItems_of_items? rfl)
    obtain rfl : b = true := hfound.2 ⟨[.int 1], [], rfl⟩
    exact hb
  have hshort : (Value.bytes [3]).contains s (.byteArray ⟨1⟩) = .ok false := by
    obtain ⟨-, -, hpart, -⟩ := contains_agrees_with_items hs (.bytes [3]) (.byteArray ⟨1⟩)
    obtain ⟨vs, hvs, -, hrow⟩ := hpart (Or.inl rfl)
    obtain ⟨ws, hws, b, hb, hnone⟩ := hrow (Or.inr rfl)
    obtain rfl := hws.unique hbytes
    obtain rfl : vs = [.int 3] := hvs.unique (hasItems_of_items? rfl)
    obtain rfl : b = false := by
      rw [Bool.eq_false_iff, Ne, hnone]
      rintro ⟨p, q, hpq⟩
      have hlength := congrArg List.length hpq
      simp at hlength
      omega
    exact hb
  exact ⟨hs, hkeys, hfound, hlong, hshort⟩

end

end Value

end Dynval
