import Dynval.Platform
import Dynval.Proofs.Sequence.Elements
import Dynval.Proofs.Store.Keyed

/-!
# Iteration, length and subscripts agree

Iterating a sequence gives its elements, as many as its length says, and the one at each position is
what reading by subscript gives there, counted from the front or from the end. Iterating a map gives
its keys, and under each of them the map holds what is stored there.
-/

namespace Dynval

variable {ε : Type} {s : Store} {v : Value} {vs : List Value}

namespace Subscript

/-- Inside a sequence both policies read the element. -/
lemma get_of_position? {index : Int64} {p : Nat} {w : Value} (hv : v.IsSequence s vs)
    (hp : position? index vs.length = some p) (hw : vs[p]? = some w) :
    (get v index : Action ε Value) s = ⟨.ok w, s, []⟩ ∧ getStrict v index s = ⟨.ok w, s, []⟩ := by
  have helement := hv.element?_of_position? hp hw
  exact ⟨get_of_element? helement, getStrict_of_element? helement⟩

/-- Outside a sequence the lenient read answers the default and reports it, and the strict one
fails. -/
lemma get_of_position?_eq_none {index : Int64} (hv : v.IsSequence s vs)
    (hp : position? index vs.length = none) :
    (get v index : Action ε Value) s =
        ⟨.ok v.neutralDefault, s, [.readDefaulted v.kind index]⟩ ∧
      getStrict v index s =
        ⟨.error (.of .getIndex (.indexOutOfRange index v.kind vs.length)), s, []⟩ := by
  have helement : v.element? s index = none := by rw [hv.element?, hp, Option.bind_none]
  refine ⟨get_of_element?_eq_none helement, ?_⟩
  have hlength := hv.sequenceLength?
  cases hv <;> simp only [getStrict, Action.check_apply, helement, hlength]

/-- A subscript from minus the length on and below the length reads the element at its position,
which a negative one counts from the end. -/
lemma exists_get_of_inside {index : Int64} (hv : v.IsSequence s vs)
    (hinside : -(vs.length : Int) ≤ index.toInt ∧ index.toInt < vs.length) :
    let p := if index.toInt < 0 then index.toInt + vs.length else index.toInt
    ∃ w, vs[p.toNat]? = some w ∧
      (get v index : Action ε Value) s = ⟨.ok w, s, []⟩ ∧ getStrict v index s = ⟨.ok w, s, []⟩ := by
  intro p
  obtain ⟨q, hposition, hq, hlt⟩ := exists_position?_of_inside hinside
  have hw : vs[q]? = some vs[q] := List.getElem?_eq_getElem hlt
  have hpq : p.toNat = q := by
    rw [normalizeIndex_eq] at hq
    omega
  refine ⟨vs[q], ?_, get_of_position? hv hposition hw⟩
  rw [hpq, hw]

/-- Every entry of a well-keyed map is read under its key. -/
lemma getItem_of_mem {r : Ref} {es : Entries Value} {k : Key} {a : Value}
    (hcell : s.cell? r = some (.map es)) (hes : MapChange.WellKeyed es) (hmem : (k, a) ∈ es) :
    (getItem (.map r) k.toValue : Action ε Value) s = ⟨.ok a, s, []⟩ := by
  have hk := hes.canonical k (List.mem_map_of_mem hmem)
  have hfind := Entries.find?_of_mem hes.increasing hmem
  simp [getItem, Store.entries_of_cell? hcell, hk, hfind]

end Subscript

namespace Sequence

lemma items_of_items? (h : v.items? s = some vs) :
    (items v : Action ε (List Value)) s = ⟨.ok vs, s, []⟩ := by
  simp [items, h]

/-- Enumerating counts the items from zero. -/
lemma enumerate_of_items? (h : v.items? s = some vs) :
    (enumerate v : Action ε (List (Nat × Value))) s =
      ⟨.ok ((List.range vs.length).zip vs), s, []⟩ := by
  have hpairs : vs.zipIdx.map Prod.swap = (List.range vs.length).zip vs := by
    rw [List.zipIdx_eq_zip_range', ← List.range_eq_range']
    exact List.zip_swap ..
  rw [enumerate, Action.bind_of_ok (a := vs) (by rw [items_of_items? h]), items_of_items? h,
    ← hpairs]
  rfl

/-- Iterating a sequence gives as many items as its length says, and `enumerate` gives them with
their positions. A subscript from minus the length on and below the length reads the item at its
position, leniently and strictly; at any other one a lenient read answers the default and a strict
read raises an index fault. Iterating a map gives as many items as its length says, and reading
under each of them gives what is stored there. The maps of the store are well keyed, as all maps are
that a program makes. -/
theorem iteration_agrees_with_subscripts (s : Store) :
    (∀ v vs, v.IsSequence s vs →
      (items v : Action ε (List Value)) s = ⟨.ok vs, s, []⟩ ∧
      v.length s = .ok vs.length ∧
      (enumerate v : Action ε (List (Nat × Value))) s =
        ⟨.ok ((List.range vs.length).zip vs), s, []⟩ ∧
      ∀ index : Int64,
        let p := if index.toInt < 0 then index.toInt + vs.length else index.toInt
        let get : Outcome ε Value := Subscript.get v index s
        let getStrict := Subscript.getStrict v index s
        (-(vs.length : Int) ≤ index.toInt ∧ index.toInt < vs.length →
          ∃ w, vs[p.toNat]? = some w ∧ get = ⟨.ok w, s, []⟩ ∧ getStrict = ⟨.ok w, s, []⟩) ∧
        (¬(-(vs.length : Int) ≤ index.toInt ∧ index.toInt < vs.length) →
          get.result = .ok v.neutralDefault ∧
            ∃ f, getStrict.result = .error f ∧ f.name = "IndexError")) ∧
    (s.Keyed → ∀ r es, s.cell? r = some (.map es) →
      (items (.map r) : Action ε (List Value)) s = ⟨.ok (es.map fun e => e.1.toValue), s, []⟩ ∧
      (Value.map r).length s = .ok es.length ∧
      ∀ k a, (k, a) ∈ es →
        (Subscript.getItem (.map r) k.toValue : Action ε Value) s = ⟨.ok a, s, []⟩) := by
  constructor
  · intro v vs hv
    refine ⟨items_of_items? hv.items?, hv.length, enumerate_of_items? hv.items?, fun index => ?_⟩
    refine ⟨Subscript.exists_get_of_inside hv, fun houtside => ?_⟩
    obtain ⟨hget, hstrict⟩ :=
      Subscript.get_of_position?_eq_none (ε := ε) hv (position?_eq_none_iff.2 houtside)
    exact ⟨congrArg Outcome.result hget, _, congrArg Outcome.result hstrict, rfl⟩
  · intro hs r es hcell
    have hentries := Store.entries_of_cell? hcell
    refine ⟨items_of_items? ?_, ?_, fun k a => Subscript.getItem_of_mem hcell (hs r _ hcell)⟩
    · rw [Value.items?, hentries, Entries.keys, List.map_map]
      rfl
    · simp [Value.length, hentries]

section

attribute [local instance] Platform.standard

/-- The last character of a text with a long one there, and a map that holds itself under a byte
string. -/
theorem iteration_agrees_on_text_and_map :
    let s := MapChange.runAll ⟨0⟩ ⟨#[.map []]⟩
      [.insert (.float .one) (.str "a"), .setItem (.bytes [7]) (.map ⟨0⟩)]
    let t : Value := .str "aé😀"
    s.Keyed ∧ t.IsSequence s [.str "a", .str "é", .str "😀"] ∧
      (Subscript.get t (-1) : Action Fault Value) s = ⟨.ok (.str "😀"), s, []⟩ ∧
      (Subscript.getItem (.map ⟨0⟩) (.bytes [7]) : Action Fault Value) s =
        ⟨.ok (.map ⟨0⟩), s, []⟩ := by
  intro s t
  have hs : s.Keyed := (Store.Made.runAll (.newMap .empty) _ _).keyed
  have ht : t.IsSequence s [.str "a", .str "é", .str "😀"] := .str "aé😀"
  obtain ⟨hsequences, hmaps⟩ := iteration_agrees_with_subscripts (ε := Fault) s
  obtain ⟨-, -, -, hread⟩ := hsequences t _ ht
  obtain ⟨w, hw, hget, -⟩ := (hread (-1)).1 (by decide)
  obtain rfl : .str "😀" = w := Option.some.inj hw
  obtain ⟨-, -, hstored⟩ := hmaps hs ⟨0⟩ [(.int 1, .str "a"), (.bytes [7], .map ⟨0⟩)]
    (by decide +kernel)
  exact ⟨hs, ht, hget, hstored (.bytes [7]) (.map ⟨0⟩) (by simp)⟩

end

end Sequence

end Dynval
