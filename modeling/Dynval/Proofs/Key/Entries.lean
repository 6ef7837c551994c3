import Dynval.Proofs.Key.Order
import Dynval.Value.Key

/-!
# Entries in increasing order

Entries are kept in strictly increasing order of their keys. Storing and removing keep the order,
and change what is found under the one key that they are given.
-/

namespace Dynval.Entries

variable {α : Type} {k l : Key} {a : α} {es : Entries α}

/-! ### What is found -/

@[simp] lemma find?_nil (l : Key) : Entries.find? l ([] : Entries α) = none := rfl

@[simp] lemma find?_cons (l k : Key) (a : α) (es : Entries α) :
    Entries.find? l ((k, a) :: es) = if l = k then some a else es.find? l := rfl

/-- An insertion shows under its own key alone. -/
lemma find?_insert (l k : Key) (a : α) (es : Entries α) :
    (es.insert k a).find? l = if l = k then some a else es.find? l := by
  induction es with
  | nil => simp [insert]
  | cons e es ih =>
    obtain ⟨m, b⟩ := e
    cases h : k.compare m with
    | lt => simp [insert, h]
    | eq =>
      obtain rfl := Std.LawfulEqCmp.eq_of_compare h
      by_cases hl : l = k <;> simp [insert, hl]
    | gt =>
      have hne : k ≠ m := by
        rintro rfl
        simp at h
      rcases eq_or_ne l k with rfl | hl
      · simp [insert, h, ih, hne]
      · simp [insert, h, ih, hl]

/-- Storing under a key leaves the other entries as they are. -/
lemma filter_insert (k : Key) (a : α) (es : Entries α) :
    (es.insert k a).filter (fun e => e.1 ≠ k) = es.filter fun e => e.1 ≠ k := by
  induction es with
  | nil => simp [insert]
  | cons e es ih =>
    obtain ⟨m, b⟩ := e
    cases h : k.compare m with
    | lt => simp [insert, h]
    | eq =>
      obtain rfl := Std.LawfulEqCmp.eq_of_compare h
      simp [insert]
    | gt => simp only [insert, h, List.filter_cons, ih]

/-! ### Increasing order -/

/-- Whether the keys are in strictly increasing order. -/
def Increasing (es : Entries α) : Prop :=
  es.keys.Pairwise fun k l => k.compare l = .lt

lemma increasing_nil : Increasing ([] : Entries α) :=
  .nil

lemma mem_keys_insert (l k : Key) (a : α) (es : Entries α) :
    l ∈ (es.insert k a).keys ↔ l = k ∨ l ∈ es.keys := by
  induction es with
  | nil => simp [insert, keys]
  | cons e es ih =>
    obtain ⟨m, b⟩ := e
    simp only [keys] at ih ⊢
    cases h : k.compare m with
    | lt => simp [insert, h]
    | eq =>
      obtain rfl := Std.LawfulEqCmp.eq_of_compare h
      simp [insert]
    | gt => simp [insert, h, ih, or_left_comm]

/-- An insertion brings no other value in. -/
lemma mem_values_of_mem_insert {b : α} (h : b ∈ (es.insert k a).map Prod.snd) :
    b ∈ es.map Prod.snd ∨ b = a := by
  induction es with
  | nil => simpa [insert] using h
  | cons e es ih =>
    obtain ⟨m, c⟩ := e
    cases hcompare : k.compare m with
    | lt =>
      simp only [insert, hcompare, List.map_cons, List.mem_cons] at h ⊢
      exact or_comm.1 h
    | eq =>
      simp only [insert, hcompare, List.map_cons, List.mem_cons] at h ⊢
      exact h.symm.imp_left Or.inr
    | gt =>
      simp only [insert, hcompare, List.map_cons, List.mem_cons] at h ih ⊢
      rw [or_assoc]
      exact h.imp_right ih

lemma increasing_cons {m : Key} {b : α} : Increasing ((m, b) :: es) ↔
    (∀ l ∈ es.keys, m.compare l = .lt) ∧ es.Increasing :=
  List.pairwise_cons

/-- Insertion keeps the keys in order. -/
lemma Increasing.insert (hes : es.Increasing) (k : Key) (a : α) : (es.insert k a).Increasing := by
  induction es with
  | nil => exact increasing_cons.2 ⟨by simp [keys], increasing_nil⟩
  | cons e es ih =>
    obtain ⟨m, b⟩ := e
    obtain ⟨hm, htail⟩ := increasing_cons.1 hes
    rw [Entries.insert]
    cases h : k.compare m with
    | lt =>
      refine increasing_cons.2 ⟨?_, hes⟩
      intro l hl
      rcases List.mem_cons.1 hl with rfl | hl
      · exact h
      · exact Std.TransCmp.lt_trans h (hm l hl)
    | eq =>
      obtain rfl := Std.LawfulEqCmp.eq_of_compare h
      exact increasing_cons.2 ⟨hm, htail⟩
    | gt =>
      refine increasing_cons.2 ⟨?_, ih htail⟩
      intro l hl
      rcases (mem_keys_insert l k a es).1 hl with rfl | hl
      · exact Std.OrientedCmp.lt_of_gt h
      · exact hm l hl

/-- A key above all others is stored at the end. -/
lemma insert_eq_concat (h : ∀ l ∈ es.keys, l.compare k = .lt) (a : α) :
    es.insert k a = es ++ [(k, a)] := by
  induction es with
  | nil => rfl
  | cons e es ih =>
    obtain ⟨m, b⟩ := e
    obtain ⟨hm, htail⟩ := List.forall_mem_cons.1 h
    have hgt : k.compare m = .gt := Std.OrientedCmp.gt_of_lt hm
    rw [Entries.insert, hgt, List.cons_append, ih htail]

lemma erase_sublist (k : Key) (es : Entries α) : (es.erase k).Sublist es := by
  induction es with
  | nil => exact .slnil
  | cons e es ih =>
    obtain ⟨m, b⟩ := e
    rw [erase]
    split_ifs
    · exact List.sublist_cons_self _ _
    · exact ih.cons_cons _

lemma find?_eq_none (h : l ∉ es.keys) : es.find? l = none := by
  induction es with
  | nil => rfl
  | cons e es ih =>
    obtain ⟨m, b⟩ := e
    simp only [keys, List.map_cons, List.mem_cons, not_or] at h ih
    rw [find?_cons, if_neg h.1, ih h.2]

/-- Removal shows under its own key alone; without the order a second entry of the key could show
up. -/
lemma find?_erase (hes : es.Increasing) (l k : Key) :
    (es.erase k).find? l = if l = k then none else es.find? l := by
  induction es with
  | nil => simp [Entries.erase]
  | cons e es ih =>
    obtain ⟨m, b⟩ := e
    obtain ⟨hm, htail⟩ := increasing_cons.1 hes
    rw [Entries.erase]
    by_cases hk : k = m
    · subst hk
      have hnew : k ∉ Entries.keys es := fun hmem => by simpa using hm k hmem
      rcases eq_or_ne l k with rfl | hl
      · simp [find?_eq_none hnew]
      · simp [hl]
    · rw [if_neg hk, find?_cons, find?_cons, ih htail]
      rcases eq_or_ne l k with rfl | hl
      · simp [hk]
      · simp [hl]

/-! ### What is there -/

lemma mem_keys_of_find? (h : es.find? k = some a) : k ∈ es.keys := by
  by_contra hk
  rw [find?_eq_none hk] at h
  cases h

lemma isSome_find?_iff : (es.find? k).isSome ↔ k ∈ es.keys := by
  induction es with
  | nil => simp [keys]
  | cons e es ih =>
    obtain ⟨m, b⟩ := e
    rw [find?_cons]
    split_ifs with hk
    · simp [hk, keys]
    · simpa [hk, keys] using ih

/-- In increasing order every entry is found under its key. -/
lemma find?_of_mem (hes : es.Increasing) (h : (k, a) ∈ es) : es.find? k = some a := by
  induction es with
  | nil => cases h
  | cons e es ih =>
    obtain ⟨m, b⟩ := e
    obtain ⟨hm, htail⟩ := increasing_cons.1 hes
    rcases List.mem_cons.1 h with heq | hmem
    · cases heq
      rw [find?_cons, if_pos rfl]
    · have hne : k ≠ m := by
        rintro rfl
        simpa using hm k (List.mem_map_of_mem (f := Prod.fst) hmem)
      rw [find?_cons, if_neg hne, ih htail hmem]

/-- Storing what is there changes nothing. -/
lemma insert_of_find? (hes : es.Increasing) (h : es.find? k = some a) : es.insert k a = es := by
  induction es with
  | nil => cases h
  | cons e es ih =>
    obtain ⟨m, b⟩ := e
    obtain ⟨hm, htail⟩ := increasing_cons.1 hes
    rw [find?_cons] at h
    split_ifs at h with hk
    · cases h
      simp [insert, hk]
    · rw [insert, Std.OrientedCmp.gt_of_lt (hm k (mem_keys_of_find? h)), ih htail h]

/-- Insertion makes the entries longer only by a new key. -/
lemma length_insert (hes : es.Increasing) (k : Key) (a : α) :
    (es.insert k a).length = if (es.find? k).isSome then es.length else es.length + 1 := by
  induction es with
  | nil => rfl
  | cons e es ih =>
    obtain ⟨m, b⟩ := e
    obtain ⟨hm, htail⟩ := increasing_cons.1 hes
    rw [insert, find?_cons]
    cases hkm : k.compare m with
    | lt =>
      have hne : k ≠ m := by
        rintro rfl
        simp at hkm
      have hnew : k ∉ Entries.keys es := fun hk => by
        simpa using Std.TransCmp.lt_trans hkm (hm k hk)
      simp [hne, find?_eq_none hnew]
    | eq =>
      obtain rfl := Std.LawfulEqCmp.eq_of_compare hkm
      simp
    | gt =>
      have hne : k ≠ m := by
        rintro rfl
        simp at hkm
      rw [List.length_cons, ih htail, if_neg hne, List.length_cons]
      split_ifs <;> rfl

end Dynval.Entries
