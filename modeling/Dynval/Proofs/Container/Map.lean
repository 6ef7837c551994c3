import Dynval.Container
import Dynval.Platform
import Dynval.Proofs.Action.Basic
import Dynval.Proofs.Key.Entries
import Dynval.Proofs.Key.Equality

/-!
# A map holds what was written last

A map is changed by subscript, under either policy, and by its methods. Every way turns the value
that it is given into a key and stores or removes under that key (`MapChange.cell?_run`), so after
any changes the keys are in increasing order and no two of them count as equal, and what is found
under a value is what the last change under an equal value left there.
-/

namespace Dynval

/-- A change of a map: a lenient or strict write by subscript, or a call of a method with the key of
a value. -/
inductive MapChange where
  | setItem (key v : Value)
  | setIndex (index : Int64) (v : Value)
  | setItemStrict (key v : Value)
  | insert (key v : Value)
  | remove (key : Value)

namespace MapChange

variable {s : Store} {r : Ref} {c : MapChange}

def key : MapChange → Value
  | setItem key _ | setItemStrict key _ | insert key _ | remove key => key
  | setIndex index _ => .int index

/-- What is written; nothing for a removal. -/
def written? : MapChange → Option Value
  | setItem _ v | setIndex _ v | setItemStrict _ v | insert _ v => some v
  | remove _ => none

/-- The store after a change of a map. -/
def run [FloatPrinter] (r : Ref) (s : Store) : MapChange → Store
  | setItem key v => ((Subscript.setItem (.map r) key v : Action Fault Unit) s).store
  | setIndex index v => ((Subscript.set (.map r) index v : Action Fault Unit) s).store
  | setItemStrict key v => (Subscript.setItemStrict (.map r) key v s).store
  | insert key v =>
    match Key.ofValue key with
    | .ok k => (s.putEntry r k v).2
    | .error _ => s
  | remove key =>
    match Key.ofValue key with
    | .ok k => (s.removeEntry r k).2
    | .error _ => s

def runAll [FloatPrinter] (r : Ref) (s : Store) (changes : List MapChange) : Store :=
  changes.foldl (run r) s

/-- Whether a change is made under a value that counts as equal to `k`. A value that is no key
changes nothing, also where it equals one as a byte array equals a byte string. -/
def touches (s : Store) (k : Value) (c : MapChange) : Bool :=
  (Key.ofValue? c.key).isSome && c.key.isOrEquals s k

/-- What the last change under a value that counts as equal to `k` left there. -/
def latest? (s : Store) (k : Value) (changes : List MapChange) : Option Value :=
  (changes.reverse.find? (touches s k)).bind written?

/-! ### One change -/

def entriesAfter (c : MapChange) (es : Entries Value) : Entries Value :=
  match Key.ofValue? c.key, c.written? with
  | none, _ => es
  | some k, some v => es.insert k v
  | some k, none => es.erase k

/-- A change under a value that is no key does nothing. -/
lemma run_of_ofValue?_eq_none [FloatPrinter] (h : Key.ofValue? c.key = none) : c.run r s = s := by
  cases c with
  | setIndex index v => cases h
  | _ =>
    simp only [key] at h
    simp [run, Subscript.setItem, Subscript.setItemStrict, Key.ofValue, Action.bind_apply, h]

/-- Every other change replaces the entries of the map, all in the same way. -/
lemma run_of_ofValue? [FloatPrinter] {k : Key} (h : Key.ofValue? c.key = some k) :
    c.run r s = s.setEntries r (c.entriesAfter (s.entries r)) := by
  cases c with
  | setIndex index v =>
    cases h
    rfl
  | _ =>
    simp only [key] at h
    simp [run, Subscript.setItem, Subscript.setItemStrict, Key.ofValue, Action.bind_apply, h,
      Store.putEntry, Store.removeEntry, Store.setEntry, entriesAfter, key, written?]

/-- A change of a map changes its entries alone. -/
lemma cell?_run [FloatPrinter] {es : Entries Value} (hs : s.cell? r = some (.map es)) :
    (c.run r s).cell? r = some (.map (c.entriesAfter es)) := by
  cases hkey : Key.ofValue? c.key with
  | none =>
    rw [run_of_ofValue?_eq_none hkey, hs]
    simp [entriesAfter, hkey]
  | some k =>
    have hentries : s.entries r = es := by simp [Store.entries, hs]
    have hlt := Store.index_lt_of_cell? hs
    simp only [run_of_ofValue? hkey, hentries, Store.setEntries, hs]
    exact Store.cell?_put_self _ hlt

/-! ### Keys in order and apart -/

/-- Entries in increasing order whose keys are all keys of values, so that none stands for a number
that another one stands for. -/
structure WellKeyed (es : Entries Value) : Prop where
  increasing : es.Increasing
  canonical : ∀ k ∈ es.keys, Key.ofValue? k.toValue = some k

namespace WellKeyed

variable {es : Entries Value}

lemma nil : WellKeyed [] :=
  ⟨Entries.increasing_nil, by simp [Entries.keys]⟩

/-- Entries that lose some keys stay well keyed. -/
lemma of_keys_sublist {fs : Entries Value} (hes : WellKeyed es)
    (h : fs.keys.Sublist es.keys) : WellKeyed fs :=
  ⟨hes.increasing.sublist h, fun k hk => hes.canonical k (h.subset hk)⟩

/-- Entries stay well keyed when the key of a value is added. -/
lemma insert (hes : WellKeyed es) {k : Key} (hk : Key.ofValue? k.toValue = some k) (v : Value) :
    WellKeyed (es.insert k v) := by
  refine ⟨hes.increasing.insert k v, fun l hl => ?_⟩
  rcases (Entries.mem_keys_insert l k v es).1 hl with rfl | hl
  · exact hk
  · exact hes.canonical l hl

/-- Every change keeps the entries of a map well keyed. -/
lemma entriesAfter (hes : WellKeyed es) (c : MapChange) : WellKeyed (c.entriesAfter es) := by
  unfold MapChange.entriesAfter
  split
  · exact hes
  · rename_i k v hkey hwritten
    exact hes.insert (Key.ofValue?_toValue hkey) v
  · exact hes.of_keys_sublist ((Entries.erase_sublist _ es).map Prod.fst)

/-- Well-keyed entries hold no two keys that count as equal. -/
lemma eq_of_isOrEquals (hes : WellKeyed es) {k l : Key} (hk : k ∈ es.keys) (hl : l ∈ es.keys)
    (h : k.toValue.isOrEquals s l.toValue) : k = l :=
  (Key.ofValue?_eq_iff (hes.canonical k hk) (hes.canonical l hl) s).2 h

end WellKeyed

/-! ### What is found -/

/-- A change shows under its own key and under no other. -/
lemma find?_entriesAfter {es : Entries Value} (hes : es.Increasing) (c : MapChange) (k : Key) :
    (c.entriesAfter es).find? k =
      if Key.ofValue? c.key = some k then c.written? else es.find? k := by
  unfold entriesAfter
  split
  · simp [*]
  · rw [Entries.find?_insert]
    simp [*, eq_comm]
  · rw [Entries.find?_erase hes]
    simp [*, eq_comm]

/-- A change is made under an equal value when it is made under the same key. -/
lemma touches_iff {v : Value} {k : Key} (hv : Key.ofValue? v = some k) :
    c.touches s v ↔ Key.ofValue? c.key = some k := by
  unfold touches
  cases hkey : Key.ofValue? c.key with
  | none => simp
  | some l =>
    rw [Option.isSome_some, Bool.true_and, ← Key.ofValue?_eq_iff hkey hv s, Option.some.injEq]

/-- One more change is the latest one where it touches the value. -/
lemma latest?_concat (s : Store) (v : Value) (changes : List MapChange) (c : MapChange) :
    latest? s v (changes ++ [c]) =
      if c.touches s v then c.written? else latest? s v changes := by
  unfold latest?
  rw [List.reverse_concat, List.find?_cons]
  cases c.touches s v <;> rfl

/-! ### Many changes -/

lemma runAll_concat [FloatPrinter] (r : Ref) (s : Store) (changes : List MapChange)
    (c : MapChange) : runAll r s (changes ++ [c]) = c.run r (runAll r s changes) :=
  List.foldl_concat ..

/-- After any changes of an empty map its entries are well keyed, and hold under each key what the
last change under it left there. -/
lemma exists_cell?_runAll [FloatPrinter] (hs : s.cell? r = some (.map []))
    (changes : List MapChange) :
    ∃ es, (runAll r s changes).cell? r = some (.map es) ∧ WellKeyed es ∧
      ∀ t v k, Key.ofValue? v = some k → es.find? k = latest? t v changes := by
  induction changes using List.reverseRecOn with
  | nil => exact ⟨[], hs, .nil, fun _ _ _ _ => rfl⟩
  | append_singleton changes c ih =>
    obtain ⟨es, hcell, hes, hlatest⟩ := ih
    refine ⟨c.entriesAfter es, ?_, hes.entriesAfter c, fun t v k hv => ?_⟩
    · rw [runAll_concat]
      exact cell?_run hcell
    · rw [find?_entriesAfter hes.increasing, latest?_concat, hlatest t v k hv]
      simp only [touches_iff hv]

/-- After any changes of an empty map its keys are in strictly increasing order, no two of them
count as equal, and the map is as long as there are keys. Reading under a value that is no container
gives what the last change under an equal value wrote, and nil if that was a removal or there was
none. A further change under a container does nothing. -/
theorem runAll_holds_latest_writes [FloatPrinter] (hs : s.cell? r = some (.map []))
    (changes : List MapChange) :
    let t := runAll r s changes
    let keys := (t.entries r).keys
    keys.Pairwise (fun k l => k.compare l = .lt) ∧
    (∀ k ∈ keys, ∀ l ∈ keys, k.toValue.isOrEquals t l.toValue → k = l) ∧
    (Value.map r).length t = .ok keys.length ∧
    (∀ v : Value, v.kind.isComposite = false →
      (Subscript.getItem (.map r) v : Action Fault Value) t =
        ⟨.ok ((latest? t v changes).getD .nil), t, []⟩) ∧
    ∀ c : MapChange, c.key.kind.isComposite → c.run r t = t := by
  intro t keys
  obtain ⟨es, hcell, hes, hlatest⟩ := exists_cell?_runAll hs changes
  have hentries : t.entries r = es := by simp [Store.entries, t, hcell]
  have hkeys : keys = es.keys := congrArg Entries.keys hentries
  refine ⟨?_, ?_, ?_, ?_, ?_⟩
  · rw [hkeys]
    exact hes.increasing
  · rw [hkeys]
    exact fun k hk l hl => hes.eq_of_isOrEquals hk hl
  · simp [Value.length, keys, Entries.keys]
  · intro v hv
    obtain ⟨k, hk⟩ := Key.exists_ofValue? hv
    rw [← hlatest t v k hk]
    simp [Subscript.getItem, hk, hentries]
  · intro c hc
    exact run_of_ofValue?_eq_none (Key.ofValue?_eq_none_iff.2 hc)

section

attribute [local instance] Platform.standard

/-- A map that is written under `True`, under `1.0`, under a NaN and under a byte array, and from
which the NaN is removed, holds under `1` what was written under `1.0`. -/
theorem mixed_writes_fold_into_one_entry :
    let s : Store := ⟨#[.map [], .byteArray [49]]⟩
    let changes := [setItem (.bool true) (.str "a"), setItemStrict (.float .nan) (.map ⟨0⟩),
      insert (.float .one) (.str "b"), setItem (.byteArray ⟨1⟩) (.str "c"), remove (.float .nan)]
    let t := runAll ⟨0⟩ s changes
    s.cell? ⟨0⟩ = some (.map []) ∧
      ((Subscript.getItem (.map ⟨0⟩) (.int 1) : Action Fault Value) t).result = .ok (.str "b") ∧
      ((Subscript.getItem (.map ⟨0⟩) (.bytes [49]) : Action Fault Value) t).result = .ok .nil := by
  intro s changes t
  obtain ⟨-, -, -, hget, -⟩ := runAll_holds_latest_writes (s := s) (r := ⟨0⟩) rfl changes
  refine ⟨rfl, ?_, ?_⟩
  · rw [hget (.int 1) rfl]
    decide +kernel
  · rw [hget (.bytes [49]) rfl]
    decide +kernel

end

end MapChange

end Dynval
