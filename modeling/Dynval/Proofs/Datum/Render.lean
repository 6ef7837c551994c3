import Dynval.Platform
import Dynval.Proofs.Datum.Text
import Dynval.Proofs.Store.Above
import Dynval.Proofs.Store.Rename

/-!
# Texts by paths

`Value.Renders` says what the text of a value is by the paths that lead to its parts: a list or map
is cut at the end of a path if it is also at the end of a shorter part of that path, and otherwise
it is written in full, also where another path leads to it. Every value of every store has exactly
one such text, and it is the one that `Value.repr` writes. A renderer knows no paths: it keeps the
lists and maps that it is inside of, and those are the ones at the ends of the shorter parts.
-/

namespace Dynval

namespace Store

variable {s : Store} {v w : Value} {p q : List Nat} {i : Nat} {r : Ref}

/-- Whether the list or map at the end of a path is one of its own ancestors on the path. -/
def Recurs (s : Store) (v : Value) (p : List Nat) : Prop :=
  ∃ q, q <+: p ∧ q ≠ p ∧ ∃ r, s.nodeAt v q = some r ∧ s.nodeAt v p = some r

/-- Whether the lists and maps of `above` are those at the ends of the shorter parts of a path. -/
def IsAbove (s : Store) (v : Value) (p : List Nat) (above : List Ref) : Prop :=
  ∀ r, r ∈ above ↔ ∃ q, q <+: p ∧ q ≠ p ∧ s.nodeAt v q = some r

/-- Nothing is above the start of a path. -/
lemma isAbove_nil (s : Store) (v : Value) : s.IsAbove v [] [] := by
  intro r
  simp

/-- One step further down, the list or map that is left is above as well. -/
lemma IsAbove.concat {above : List Ref} (h : s.IsAbove v p above) (hp : s.follow v p = some w)
    (hr : w.node? = some r) (i : Nat) : s.IsAbove v (p ++ [i]) (r :: above) := by
  have hshorter : ∀ q, (q <+: p ++ [i] ∧ q ≠ p ++ [i]) ↔ q = p ∨ q <+: p ∧ q ≠ p := by
    intro q
    rw [List.prefix_concat_iff]
    constructor
    · rintro ⟨rfl | hq, hne⟩
      · exact absurd rfl hne
      · exact (eq_or_ne q p).imp_right fun hqp => ⟨hq, hqp⟩
    · have hlong : ∀ {q}, q <+: p → q ≠ p ++ [i] := by
        rintro q hq rfl
        have hle := hq.length_le
        rw [List.length_append, List.length_singleton] at hle
        omega
      rintro (rfl | ⟨hq, -⟩)
      · exact ⟨Or.inr (List.prefix_refl q), hlong (List.prefix_refl q)⟩
      · exact ⟨Or.inr hq, hlong hq⟩
  intro x
  simp only [List.mem_cons, h x, ← and_assoc, hshorter, or_and_right, exists_or, exists_eq_left,
    nodeAt_of_follow hp, hr, Option.some.injEq]
  exact or_congr_left eq_comm

/-- A path comes back to a container exactly when that container is among those above its end. -/
lemma IsAbove.recurs_iff {above : List Ref} (h : s.IsAbove v p above) (hp : s.follow v p = some w)
    (hr : w.node? = some r) : s.Recurs v p ↔ r ∈ above := by
  rw [h r, Recurs, nodeAt_of_follow hp, hr]
  simp [eq_comm]

end Store

namespace Value

open Text

variable [FloatPrinter] {s : Store} {v w : Value} {p : List Nat} {text : List Char}

/-- The text of a value that is no list or map. -/
def leafText (s : Store) : Value → List Char
  | .nil => "None".toList
  | .bool b => if b then "True".toList else "False".toList
  | .int i => intChars i.toInt
  | .float x => x.textChars
  | .str t => quoteText t
  | .bytes data => quoteBytes data
  | .byteArray r => "bytearray(".toList ++ quoteBytes (s.data r) ++ [')']
  | .list _ | .map _ => []

/-- The text of an entry of a map, given that of what it holds. -/
def entryText (s : Store) (k : Key) (text : List Char) : List Char :=
  k.toValue.leafText s ++ ':' :: ' ' :: text

/-- The text of what a path from `v` leads to. -/
inductive Renders (s : Store) (v : Value) : List Nat → List Char → Prop where
  /-- A value that is no list or map has a text of its own. -/
  | leaf {p : List Nat} {w : Value} (hp : s.follow v p = some w) (hw : w.node? = none) :
      Renders s v p (w.leafText s)
  /-- A list that is one of its own ancestors is cut. -/
  | cutList {p : List Nat} {r : Ref} (hp : s.follow v p = some (.list r)) (hcut : s.Recurs v p) :
      Renders s v p "[...]".toList
  /-- A map that is one of its own ancestors is cut. -/
  | cutMap {p : List Nat} {r : Ref} (hp : s.follow v p = some (.map r)) (hcut : s.Recurs v p) :
      Renders s v p ['{', '.', '.', '.', '}']
  /-- Every other list has the texts of all its elements between brackets, with commas. -/
  | list {p : List Nat} {r : Ref} {texts : List (List Char)} (hp : s.follow v p = some (.list r))
      (hcut : ¬ s.Recurs v p) (hlength : texts.length = (s.items r).length)
      (hitems : ∀ i text, texts[i]? = some text → Renders s v (p ++ [i]) text) :
      Renders s v p ('[' :: List.intercalate [',', ' '] texts ++ [']'])
  /-- Every other map has its keys and the texts of all that it holds between braces, with commas,
  in the order of the keys. -/
  | map {p : List Nat} {r : Ref} {texts : List (List Char)} (hp : s.follow v p = some (.map r))
      (hcut : ¬ s.Recurs v p) (hlength : texts.length = (s.entries r).length)
      (hitems : ∀ i text, texts[i]? = some text → Renders s v (p ++ [i]) text) :
      Renders s v p ('{' :: List.intercalate [',', ' ']
        (List.zipWith (entryText s) (s.entries r).keys texts) ++ ['}'])

/-! ### Every value is rendered -/

/-- Without anything below it a value has the text of its datum. -/
lemma leafText_eq (hw : w.node? = none) (path : List Ref) :
    w.leafText s = (w.viewBelow s path).text := by
  cases w with
  | list r => cases hw
  | map r => cases hw
  | _ =>
    simp only [viewBelow, Datum.text]
    rfl

lemma entryText_eq (s : Store) (k : Key) (text : List Char) :
    entryText s k text = k.text ++ ':' :: ' ' :: text := by
  cases k <;> rfl

/-- A list that is not being written is written in full. -/
lemma text_list {above : List Ref} {r : Ref} (hmem : r ∉ above) :
    ((Value.list r).viewBelow s above).text = bracket '[' ']'
      ((s.children (.list r)).map fun u => (u.viewBelow s (r :: above)).text) := by
  rw [viewBelow_list, if_neg hmem, Datum.text, List.map_map]
  rfl

/-- A map that is not being written is written in full. -/
lemma text_map {above : List Ref} {r : Ref} (hmem : r ∉ above) :
    ((Value.map r).viewBelow s above).text = bracket '{' '}'
      (List.zipWith (entryText s) (s.entries r).keys
        ((s.children (.map r)).map fun u => (u.viewBelow s (r :: above)).text)) := by
  rw [viewBelow_map, if_neg hmem, Datum.text, List.map_zip_eq_zipWith, List.zipWith_map_right,
    List.zipWith_map_right]
  simp only [entryText_eq, Function.curry]

/-- What is below a list or map is rendered one step further down. -/
lemma renders_children {above : List Ref} {r : Ref} (hp : s.follow v p = some w)
    (hr : w.node? = some r) (habove : s.IsAbove v p above)
    (ih : ∀ u ∈ s.children w, ∀ q, s.follow v q = some u → s.IsAbove v q (r :: above) →
      Renders s v q (u.viewBelow s (r :: above)).text) :
    ∀ i text, ((s.children w).map fun u => (u.viewBelow s (r :: above)).text)[i]? = some text →
      Renders s v (p ++ [i]) text := by
  intro i text htext
  rw [List.getElem?_map, Option.map_eq_some_iff] at htext
  obtain ⟨u, hu, rfl⟩ := htext
  exact ih u (List.mem_iff_getElem?.2 ⟨i, hu⟩) _ ((Store.follow_concat hp i).trans hu)
    (habove.concat hp hr i)

/-- The text of the datum of what a path leads to, below the containers above it. -/
lemma renders_viewBelow (above : List Ref) (w : Value) : ∀ p, s.follow v p = some w →
    s.IsAbove v p above → Renders s v p (w.viewBelow s above).text := by
  induction above, w using Value.viewBelow.induct s with
  | case1 | case2 | case3 | case4 | case5 | case6 | case7 =>
    intro p hp _
    rw [← leafText_eq rfl]
    exact .leaf hp rfl
  | case8 above r hmem =>
    intro p hp habove
    rw [viewBelow_list, if_pos hmem, Datum.text]
    exact .cutList hp ((habove.recurs_iff hp rfl).2 hmem)
  | case9 above r hmem ih =>
    intro p hp habove
    rw [text_list hmem]
    refine .list hp (mt (habove.recurs_iff hp rfl).1 hmem) (List.length_map _) ?_
    exact renders_children hp rfl habove ih
  | case10 above r hmem =>
    intro p hp habove
    rw [viewBelow_map, if_pos hmem, Datum.text]
    exact .cutMap hp ((habove.recurs_iff hp rfl).2 hmem)
  | case11 above r hmem ih =>
    intro p hp habove
    rw [text_map hmem]
    refine .map hp (mt (habove.recurs_iff hp rfl).1 hmem) (by simp [Store.children]) ?_
    refine renders_children hp rfl habove fun u hu => ?_
    obtain ⟨e, he, rfl⟩ := List.mem_map.1 hu
    exact ih e he

/-- The text that is written follows the rules of rendering. -/
lemma renders_chars (s : Store) (v : Value) : Renders s v [] (v.chars s) :=
  renders_viewBelow [] v [] rfl (Store.isAbove_nil s v)

/-! ### Nothing else is rendered -/

/-- What is rendered below a list or map are the texts of what it holds. -/
lemma texts_eq {above : List Ref} {r : Ref} {texts : List (List Char)}
    (hp : s.follow v p = some w) (hr : w.node? = some r) (habove : s.IsAbove v p above)
    (hlength : texts.length = (s.children w).length)
    (ih : ∀ (i : Nat) text, texts[i]? = some text → ∀ above' u, s.follow v (p ++ [i]) = some u →
      s.IsAbove v (p ++ [i]) above' → text = (u.viewBelow s above').text) :
    texts = (s.children w).map fun u => (u.viewBelow s (r :: above)).text := by
  refine List.ext_getElem (hlength.trans (List.length_map _).symm) fun i hi hi' => ?_
  rw [List.length_map] at hi'
  rw [List.getElem_map]
  refine ih i _ (List.getElem?_eq_getElem hi) _ _ ?_ (habove.concat hp hr i)
  rw [Store.follow_concat hp, List.getElem?_eq_getElem hi']

/-- The rules of rendering leave one text for what a path leads to. -/
lemma Renders.eq_viewBelow (h : Renders s v p text) : ∀ above w, s.follow v p = some w →
    s.IsAbove v p above → text = (w.viewBelow s above).text := by
  induction h with
  | leaf hp hw =>
    intro above w hp' _
    rw [← Option.some.inj (hp.symm.trans hp')]
    exact leafText_eq hw above
  | cutList hp hcut =>
    intro above w hp' habove
    rw [← Option.some.inj (hp.symm.trans hp'), viewBelow_list,
      if_pos ((habove.recurs_iff hp rfl).1 hcut), Datum.text]
  | cutMap hp hcut =>
    intro above w hp' habove
    rw [← Option.some.inj (hp.symm.trans hp'), viewBelow_map,
      if_pos ((habove.recurs_iff hp rfl).1 hcut), Datum.text]
  | list hp hcut hlength _ ih =>
    intro above w hp' habove
    rw [← Option.some.inj (hp.symm.trans hp'),
      text_list (mt (habove.recurs_iff hp rfl).2 hcut)]
    rw [texts_eq hp rfl habove hlength ih]
    rfl
  | map hp hcut hlength _ ih =>
    intro above w hp' habove
    rw [← Option.some.inj (hp.symm.trans hp'), text_map (mt (habove.recurs_iff hp rfl).2 hcut)]
    rw [texts_eq hp rfl habove (by rw [hlength, Store.children, List.length_map]) ih]
    rfl

/-- The text of a value is the one text that is rendered by paths, where a list or map is cut
exactly when it is one of its own ancestors. Writing a value from anywhere leaves the lists and maps
that are being written as they were. And the text does not depend on addresses: a renaming that
carries what is below the value to another store does not change it. -/
theorem repr_renders_by_paths (s : Store) (v : Value) :
    (∀ text, v.repr s = String.ofList text ↔ Renders s v [] text) ∧
    (∀ quoted r, (Renderer.value s quoted v r).1.active = r.active) ∧
    ∀ (t : Store) (f : Ref → Ref), s.Carries t v f → (v.rename f).repr t = v.repr s := by
  refine ⟨fun text => ?_, fun quoted r => Renderer.active_value s quoted v r, fun t f h => ?_⟩
  · rw [repr_eq, String.ofList_inj]
    constructor
    · rintro rfl
      exact renders_chars s v
    · intro h
      exact (h.eq_viewBelow [] v rfl (Store.isAbove_nil s v)).symm
  · exact repr_eq_of_view_eq h.view_rename

-- The list holds itself, and one map twice; the map is written in full at both places.
example : (Value.list ⟨0⟩).repr
      ⟨#[.list [.list ⟨0⟩, .map ⟨1⟩, .map ⟨1⟩], .map [(.int 1, .list ⟨0⟩)]]⟩ =
    "[[...], {1: [...]}, {1: [...]}]" := by cbv

end Value

section

attribute [local instance] Platform.standard

/-- A list that holds itself and a map that holds it, behind another container. -/
theorem Value.repr_of_ring_behind_container :
    let s : Store := ⟨#[.list [.list ⟨0⟩, .map ⟨1⟩], .map [(.int 1, .list ⟨0⟩)]]⟩
    let t : Store := ⟨#[.byteArray [], .list [.list ⟨1⟩, .map ⟨2⟩], .map [(.int 1, .list ⟨1⟩)]]⟩
    s.Carries t (.list ⟨0⟩) (Ref.shift 1) ∧ (Value.list ⟨1⟩).repr t = (Value.list ⟨0⟩).repr s := by
  intro s t
  have habove : (⟨#[.byteArray []]⟩ : Store).above s = t := by
    simp only [Store.above, s, t, List.map_toArray, List.append_toArray]
    rfl
  have hcarries : s.Carries t (.list ⟨0⟩) (Ref.shift 1) :=
    habove ▸ (Store.embeds_above _ s).carries (.list ⟨0⟩)
  exact ⟨hcarries, (repr_renders_by_paths s (.list ⟨0⟩)).2.2 t (Ref.shift 1) hcarries⟩

end

end Dynval
