import Dynval.Platform
import Dynval.Proofs.Operation.Frame
import Dynval.Proofs.Sequence.Elements
import Dynval.Proofs.Value.Equality

/-!
# Reading after writing

A write by subscript shows at the subscripts that denote the same place, and nowhere else: a place
of a list or byte array is a position inside, which a subscript from the front and one from the end
can both denote, and a place of a map is an integer key. A write outside changes nothing, and
neither does writing back what was read.
-/

namespace Dynval

variable {ε : Type} {s t : Store} {c v w : Value} {vs : List Value} {i j : Int64} {p : Nat}

/-- What a container holds after a value is written to it: a byte array the remainder of its integer
by 256, any other container the value. -/
def Value.held (c v : Value) : Value :=
  match c with
  | .byteArray _ => .int (Int64.ofInt (v.toInt.toInt % 256))
  | _ => v

namespace Subscript

/-! ### Reading under a policy -/

lemma getWith_of_element? (h : c.element? s i = some w) (policy : Policy) :
    getWith policy c i s = ⟨.ok w, s, []⟩ := by
  cases policy with
  | lenient => exact get_of_element? h
  | strict => exact getStrict_of_element? h

/-- What is read depends on the element and on the length of the container. -/
lemma getWith_congr (helement : c.element? t i = c.element? s i)
    (hlength : c.sequenceLength? t = c.sequenceLength? s) (policy : Policy) :
    (getWith policy c i t).result = (getWith policy c i s).result := by
  cases helem : c.element? s i with
  | some w =>
    rw [getWith_of_element? helem, getWith_of_element? (helement.trans helem)]
  | none =>
    cases policy with
    | lenient =>
      rw [getWith, get_of_element?_eq_none helem, get_of_element?_eq_none (helement.trans helem)]
    | strict =>
      -- the fault names the length of a sequence, so the elements alone do not settle it
      cases c with
      | map r =>
        have hentry : (t.entries r).find? (.int i) = (s.entries r).find? (.int i) := helement
        simp only [getWith, getStrict, Action.check_apply, hentry]
      | _ => simp only [getWith, getStrict, Action.check_apply, helement, hlength]

/-- What reading a container gives after a write: its length, what was written at the subscripts
that the write hits, and what was there before at all others. -/
structure ReadsAfter (s t : Store) (c : Value) (hits : Int64 → Prop) (w : Value) (length : Nat) :
    Prop where
  length : c.length t = .ok length
  hit : ∀ policy index, hits index → (getWith policy c index t).result = .ok w
  miss : ∀ policy index, ¬hits index →
    (getWith policy c index t).result = (getWith policy c index s).result

/-! ### Lists and byte arrays -/

/-- A lenient write outside a sequence is dropped and reported. -/
lemma set_outside (hc : c.IsSequence s vs) (hchanges : c.kind.isComposite)
    (hi : position? i vs.length = none) (v : Value) :
    (set c i v : Action ε Unit) s = ⟨.ok (), s, [.writeDropped c.kind i]⟩ := by
  cases hc with
  | list hcell => simp [set, dropWrite, Store.items_of_cell? hcell, hi]
  | byteArray hcell =>
    rw [List.length_map] at hi
    simp [set, dropWrite, Store.data_of_cell? hcell, hi]
  | str | bytes => cases hchanges

/-- A write inside replaces the element at its position. -/
lemma isSequence_set (hc : c.IsSequence s vs) (hchanges : c.kind.isComposite)
    (hi : position? i vs.length = some p) (v : Value) :
    c.IsSequence ((set c i v : Action ε Unit) s).store (vs.set p (c.held v)) := by
  cases hc with
  | @list r _ hcell =>
    have hstore : ((set (.list r) i v : Action ε Unit) s).store = s.put r (.list (vs.set p v)) := by
      simp [set, Store.setItem, Store.setItems, Store.items_of_cell? hcell, hcell, hi]
    rw [hstore]
    exact .list (Store.cell?_put_self _ (Store.index_lt_of_cell? hcell))
  | @byteArray r data hcell =>
    rw [List.length_map] at hi
    have hstore : ((set (.byteArray r) i v : Action ε Unit) s).store =
        s.put r (.byteArray (data.set p (byteOf v.toInt))) := by
      simp [set, Store.setByte, Store.setData, Store.data_of_cell? hcell, hcell, hi,
        Value.asInt_apply, Action.bind_apply]
    rw [hstore, Value.held, ← Value.ofByte_byteOf, ← List.map_set]
    exact .byteArray (Store.cell?_put_self _ (Store.index_lt_of_cell? hcell))
  | str | bytes => cases hchanges

/-- An element that is read is written back as it was. -/
lemma setWith_element [FloatPrinter] (hc : c.IsSequence s vs) (hchanges : c.kind.isComposite)
    (hi : position? i vs.length = some p) (hw : vs[p]? = some w) (policy : Policy) :
    setWith policy c i w s = ⟨.ok (), s, []⟩ := by
  cases hc with
  | @list r _ hcell =>
    obtain ⟨hlt, rfl⟩ := List.getElem?_eq_some_iff.1 hw
    have hsame : s.setItem r p vs[p] = s := by
      rw [Store.setItem, Store.items_of_cell? hcell, List.set_getElem_self, Store.setItems, hcell]
      exact Store.put_self hcell
    cases policy <;>
      simp [setWith, set, setStrict, setStrict.inside, Action.bind_apply,
        Store.items_of_cell? hcell, hi, hsame]
  | @byteArray r data hcell =>
    rw [List.length_map] at hi
    rw [List.getElem?_map] at hw
    obtain ⟨b, hb, rfl⟩ := Option.map_eq_some_iff.1 hw
    obtain ⟨hlt, rfl⟩ := List.getElem?_eq_some_iff.1 hb
    have hsame : s.setByte r p data[p] = s := by
      rw [Store.setByte, Store.data_of_cell? hcell, List.set_getElem_self, Store.setData, hcell]
      exact Store.put_self hcell
    -- A byte that is read is an integer from 0 to 255, which neither policy changes.
    have hint : (Value.ofByte data[p]).integer? = some (Int64.ofNat data[p].toNat) := rfl
    cases policy with
    | lenient =>
      simp [setWith, set, Action.bind_apply, Store.data_of_cell? hcell, hi,
        Value.asInt_of_integer? hint, byteOf_ofNat, hsame]
    | strict =>
      simp [setWith, setStrict, setStrict.inside, Action.bind_apply, Store.data_of_cell? hcell, hi,
        hint, byteOf?_ofNat, hsame]
  | str | bytes => cases hchanges

/-- A sequence with one element replaced, read by subscript. -/
lemma readsAfter_of_set (hs : c.IsSequence s vs) (ht : c.IsSequence t (vs.set p w))
    (hp : p < vs.length) :
    ReadsAfter s t c (fun j => normalizeIndex j vs.length = p) w vs.length where
  length := by rw [ht.length, List.length_set]
  hit policy j hj := by
    have hposition : position? j (vs.set p w).length = some p := by
      rw [List.length_set]
      exact position?_eq_some_iff.2 ⟨hj, hp⟩
    rw [getWith_of_element? (ht.element?_of_position? hposition (List.getElem?_set_self hp))]
  miss policy j hj := by
    refine getWith_congr ?_ ?_ policy
    · rw [ht.element?, hs.element?, List.length_set]
      cases hposition : position? j vs.length with
      | none => rfl
      | some q =>
        have hne : p ≠ q := by
          rintro rfl
          exact hj (position?_eq_some_iff.1 hposition).1
        rw [Option.bind_some, Option.bind_some, List.getElem?_set_ne hne]
    · rw [ht.sequenceLength?, hs.sequenceLength?, List.length_set]

/-! ### Maps -/

section Map

variable {r : Ref} {es : Entries Value}

/-- A write by subscript to a map stores under the integer, under both policies. -/
lemma setWith_map [FloatPrinter] (hcell : s.cell? r = some (.map es)) (policy : Policy) (i : Int64)
    (v : Value) :
    setWith policy (.map r) i v s = ⟨.ok (), s.put r (.map (es.insert (.int i) v)), []⟩ := by
  cases policy <;>
    simp [setWith, set, setStrict, Store.setEntry, Store.setEntries, Store.entries_of_cell? hcell,
      hcell]

/-- After an insertion a map reads what was inserted under its integer, and else what it did. -/
lemma readsAfter_of_insert (hs : s.cell? r = some (.map es)) (hes : es.Increasing)
    (ht : t.cell? r = some (.map (es.insert (.int i) v))) :
    ReadsAfter s t (.map r) (fun j => j = i) v
      (if (es.find? (.int i)).isSome then es.length else es.length + 1) where
  length := by
    rw [← Entries.length_insert hes (.int i) v, Value.length, Store.entries_of_cell? ht]
  hit policy j hj := by
    have helement : (Value.map r).element? t j = some v := by
      rw [Value.element?, Store.entries_of_cell? ht, Entries.find?_insert, hj, if_pos rfl]
    rw [getWith_of_element? helement]
  miss policy j hj := by
    refine getWith_congr (s := s) (t := t) ?_ rfl policy
    have hne : Key.int j ≠ .int i := by simpa using hj
    rw [Value.element?, Value.element?, Store.entries_of_cell? ht, Store.entries_of_cell? hs,
      Entries.find?_insert, if_neg hne]

lemma setEntry_find? {k : Key} (hcell : s.cell? r = some (.map es)) (hes : es.Increasing)
    (hw : es.find? k = some w) : s.setEntry r k w = s := by
  rw [Store.setEntry, Store.entries_of_cell? hcell, Entries.insert_of_find? hes hw,
    Store.setEntries, hcell]
  exact Store.put_self hcell

/-- What is read under a key is written back as it was. -/
lemma setItem_find? [FloatPrinter] {key : Value} {k : Key} (hcell : s.cell? r = some (.map es))
    (hes : es.Increasing) (hkey : Key.ofValue? key = some k) (hw : es.find? k = some w) :
    (getItem (.map r) key : Action ε Value) s = ⟨.ok w, s, []⟩ ∧
      (setItem (.map r) key w : Action ε Unit) s = ⟨.ok (), s, []⟩ ∧
      setItemStrict (.map r) key w s = ⟨.ok (), s, []⟩ := by
  have hsame := setEntry_find? hcell hes hw
  refine ⟨?_, ?_, ?_⟩
  · simp [getItem, hkey, Store.entries_of_cell? hcell, hw]
  · simp [setItem, hkey, hsame]
  · simp [setItemStrict, Key.ofValue, Action.bind_apply, hkey, hsame]

end Map

/-! ### Writes under a policy -/

/-- A write that succeeds does what the lenient one does. -/
lemma setWith_of_ok [FloatPrinter] {policy : Policy}
    (hok : (setWith policy c i v s).result = .ok ()) : setWith policy c i v s = set c i v s := by
  cases policy with
  | lenient => rfl
  | strict => exact (setStrict_restricts_set c i v s () hok).symm

/-- A write outside a sequence changes nothing under either policy. -/
lemma setWith_outside [FloatPrinter] (hc : c.IsSequence s vs) (hchanges : c.kind.isComposite)
    (hi : position? i vs.length = none) (v : Value) (policy : Policy) :
    (setWith policy c i v s).store = s := by
  have hset := set_outside (ε := Fault) hc hchanges hi v
  cases policy with
  | lenient => rw [setWith, hset]
  | strict =>
    obtain ⟨f, hf⟩ | hsame := setStrict_cases c i v s
    · rw [setWith, hf]
    · rw [setWith, ← hsame, hset]

/-- A write changes no other container. -/
lemma cell?_setWith_of_ne [FloatPrinter] {q : Ref} (hq : c.ref? ≠ some q) (policy : Policy)
    (i : Int64) (v : Value) (s : Store) : (setWith policy c i v s).store.cell? q = s.cell? q := by
  obtain hsame | ⟨-, r, _, d, hr, -, hput, -⟩ := setWith_cases policy c i v s
  · rw [hsame]
  · rw [hput]
    refine Store.cell?_put_of_ne d ?_
    rintro rfl
    exact hq hr

/-- A write to a list or byte array hits the subscripts that denote its position, and none if it is
outside. -/
lemma readsAfter_setWith [FloatPrinter] (hc : c.IsSequence s vs) (hchanges : c.kind.isComposite)
    {policy : Policy} (hok : (setWith policy c i v s).result = .ok ()) :
    ReadsAfter s (setWith policy c i v s).store c
      (fun j => (-(vs.length : Int) ≤ i.toInt ∧ i.toInt < vs.length) ∧
        normalizeIndex j vs.length = normalizeIndex i vs.length) (c.held v) vs.length := by
  by_cases hinside : -(vs.length : Int) ≤ i.toInt ∧ i.toInt < vs.length
  · obtain ⟨p, hi, hp, hlt⟩ := exists_position?_of_inside hinside
    have ht := isSequence_set (ε := Fault) hc hchanges hi v
    rw [← setWith_of_ok hok] at ht
    simpa [hinside, hp] using readsAfter_of_set hc ht hlt
  · rw [setWith_outside hc hchanges (position?_eq_none_iff.2 hinside)]
    exact ⟨hc.length, fun _ _ h => absurd h.1 hinside, fun _ _ _ => rfl⟩

/-- Writing back what was read changes nothing. -/
lemma exists_getWith_setWith [FloatPrinter] (hc : c.IsSequence s vs) (hchanges : c.kind.isComposite)
    (hinside : -(vs.length : Int) ≤ i.toInt ∧ i.toInt < vs.length) (policy : Policy) :
    ∃ w, getWith policy c i s = ⟨.ok w, s, []⟩ ∧ setWith policy c i w s = ⟨.ok (), s, []⟩ := by
  obtain ⟨p, hi, -, hlt⟩ := exists_position?_of_inside hinside
  have hw : vs[p]? = some vs[p] := List.getElem?_eq_getElem hlt
  exact ⟨vs[p], getWith_of_element? (hc.element?_of_position? hi hw) policy,
    setWith_element hc hchanges hi hw policy⟩

/-- A write by subscript under either policy. The lenient one succeeds, and neither touches another
container. A list or byte array keeps its length. If the write succeeds and is inside, what it wrote
is read at the subscripts that denote its position, and at all others what was read before, from
every value that is the same object. A write outside changes no container. A map behaves so for the
integer keys, except that it gains an entry for a key that it lacks. What is read inside, or under a
key that is there, is written back without a change to the store. The keys of the map are in
increasing order, as those of all maps are that a program makes. -/
theorem reads_after_write [FloatPrinter] (policy : Policy) (c v : Value) (i : Int64) (s : Store) :
    let o := setWith policy c i v s
    (policy = .lenient → o.result = .ok ()) ∧
    (∀ q, c.ref? ≠ some q → o.store.cell? q = s.cell? q) ∧
    (∀ vs, c.IsSequence s vs → c.kind.isComposite →
      let n := vs.length
      let inside := -(n : Int) ≤ i.toInt ∧ i.toInt < n
      let place (j : Int64) : Int := if j.toInt < 0 then j.toInt + n else j.toInt
      (o.result = .ok () → ∀ d, d.sameObject c →
        ReadsAfter s o.store d (fun j => inside ∧ place j = place i) (c.held v) n) ∧
      (¬inside → o.store = s) ∧
      (inside → ∃ w, getWith policy c i s = ⟨.ok w, s, []⟩ ∧
        setWith policy c i w s = ⟨.ok (), s, []⟩)) ∧
    (∀ r es, c = .map r → s.cell? r = some (.map es) → es.Increasing →
      o.result = .ok () ∧
      (∀ d, d.sameObject c → ReadsAfter s o.store d (fun j => j = i) v
        (if (es.find? (.int i)).isSome then es.length else es.length + 1)) ∧
      (∀ k, (o.store.entries r).find? k = if k = .int i then some v else es.find? k) ∧
      (∀ w, es.find? (.int i) = some w →
        getWith policy c i s = ⟨.ok w, s, []⟩ ∧ setWith policy c i w s = ⟨.ok (), s, []⟩) ∧
      ∀ key k w, Key.ofValue? key = some k → es.find? k = some w →
        (getItem c key : Action Fault Value) s = ⟨.ok w, s, []⟩ ∧
        (setItem c key w : Action Fault Unit) s = ⟨.ok (), s, []⟩ ∧
        setItemStrict c key w s = ⟨.ok (), s, []⟩) := by
  intro o
  refine ⟨?_, fun q hq => cell?_setWith_of_ne hq policy i v s, ?_, ?_⟩
  · rintro rfl
    obtain ⟨u, hu⟩ := set_succeeds (ε := Fault) c i v s
    exact hu
  · intro vs hc hchanges n inside place
    refine ⟨fun hok d hd => ?_, fun houtside => ?_, fun hinside => ?_⟩
    · have hplace : place = (normalizeIndex · n) := funext fun j => (normalizeIndex_eq j n).symm
      obtain rfl := Value.sameObject_iff.1 hd
      rw [hplace]
      exact readsAfter_setWith hc hchanges hok
    · exact setWith_outside hc hchanges (position?_eq_none_iff.2 houtside) v policy
    · exact exists_getWith_setWith hc hchanges hinside policy
  · rintro r es rfl hcell hes
    have ho : o = _ := setWith_map hcell policy i v
    have ht : o.store.cell? r = some (.map (es.insert (.int i) v)) := by
      rw [ho]
      exact Store.cell?_put_self _ (Store.index_lt_of_cell? hcell)
    refine ⟨by rw [ho], fun d hd => ?_, fun k => ?_, fun w hw => ⟨?_, ?_⟩,
      fun key k w => setItem_find? hcell hes⟩
    · obtain rfl := Value.sameObject_iff.1 hd
      exact readsAfter_of_insert hcell hes ht
    · rw [Store.entries_of_cell? ht, Entries.find?_insert]
    · refine getWith_of_element? ?_ policy
      rw [Value.element?, Store.entries_of_cell? hcell, hw]
    · rw [setWith_map hcell, Entries.insert_of_find? hes hw, Store.put_self hcell]

section

attribute [local instance] Platform.standard

/-- A list written into itself at its end, a text into a byte array, and a new key of a map. -/
theorem reads_after_write_of_each_kind :
    let s : Store := ⟨#[.list [.int 1, .int 2], .byteArray [0, 7], .map [(.int 3, .nil)]]⟩
    let list := Value.list ⟨0⟩
    let bytes := Value.byteArray ⟨1⟩
    let map := Value.map ⟨2⟩
    (getWith .strict list 1 (setWith .strict list (-1) list s).store).result = .ok list ∧
      (getWith .lenient list 0 (setWith .strict list (-1) list s).store).result = .ok (.int 1) ∧
      (getWith .strict bytes (-2) (setWith .lenient bytes 0 (.str "300") s).store).result =
        .ok (.int 44) ∧
      (setWith .strict bytes 2 (.int 5) s).store = s ∧
      map.length (setWith .strict map 5 map s).store = .ok 2 := by
  intro s list bytes map
  have hlist : list.IsSequence s [.int 1, .int 2] := .list rfl
  have hbytes : bytes.IsSequence s ([0, 7].map Value.ofByte) := .byteArray rfl
  obtain ⟨hwritten, -⟩ := (reads_after_write .strict list list (-1) s).2.2.1 _ hlist rfl
  have hlist' := hwritten rfl list (by decide)
  obtain ⟨hmasked, -⟩ := (reads_after_write .lenient bytes (.str "300") 0 s).2.2.1 _ hbytes rfl
  have hbytes' := hmasked rfl bytes (by decide)
  obtain ⟨-, hdropped, -⟩ := (reads_after_write .strict bytes (.int 5) 2 s).2.2.1 _ hbytes rfl
  obtain ⟨-, hgrown, -⟩ := (reads_after_write .strict map map 5 s).2.2.2 ⟨2⟩ [(.int 3, .nil)]
    rfl rfl (by simp [Entries.Increasing, Entries.keys])
  refine ⟨hlist'.hit .strict 1 (by decide), ?_, ?_, hdropped (by decide), ?_⟩
  · exact hlist'.miss .lenient 0 (by decide)
  · exact hbytes'.hit .strict (-2) (by decide)
  · exact (hgrown map (by decide)).length

end

end Subscript

end Dynval
