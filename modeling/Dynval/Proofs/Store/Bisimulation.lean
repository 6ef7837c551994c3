import Dynval.Proofs.Datum.View

/-!
# Bisimulations of stores

A bisimulation relates the values of two stores so that related values have the same label, have
related values below them, and refer to one list or map exactly when their partners do. Related
values cannot be told apart by following paths, nor by their data, also where containers hold
themselves.
-/

namespace Dynval

namespace Store

/-- A relation between the values of two stores that no path can tell apart, and that relates
lists and maps one to one. -/
structure Bisimulation (s t : Store) (R : Value → Value → Prop) : Prop where
  label : ∀ {v w}, R v w → s.label v = t.label w
  children : ∀ {v w}, R v w → List.Forall₂ R (s.children v) (t.children w)
  node : ∀ {v w v' w'}, R v w → R v' w' → (v.node? = v'.node? ↔ w.node? = w'.node?)

namespace Bisimulation

variable {s t : Store} {R : Value → Value → Prop} {v w : Value}

/-- A path leads to related values, or nowhere on both sides. -/
lemma follow (hR : Bisimulation s t R) (p : List Nat) (h : R v w) :
    (s.follow v p = none ∧ t.follow w p = none) ∨
      ∃ v' w', s.follow v p = some v' ∧ t.follow w p = some w' ∧ R v' w' := by
  induction p generalizing v w with
  | nil => exact Or.inr ⟨v, w, rfl, rfl, h⟩
  | cons i p ih =>
    rw [follow_cons, follow_cons]
    have hlen := (hR.children h).length_eq
    by_cases hi : i < (s.children v).length
    · have hi' : i < (t.children w).length := hlen ▸ hi
      rw [List.getElem?_eq_getElem hi, List.getElem?_eq_getElem hi']
      exact ih ((hR.children h).get hi hi')
    · rw [List.getElem?_eq_none (by omega), List.getElem?_eq_none (by omega)]
      exact Or.inl ⟨rfl, rfl⟩

/-- Every path leads to the same label on both sides, or nowhere on both. -/
lemma label_follow (hR : Bisimulation s t R) (p : List Nat) (h : R v w) :
    (s.follow v p).map s.label = (t.follow w p).map t.label := by
  rcases hR.follow p h with ⟨hv, hw⟩ | ⟨v', w', hv, hw, h'⟩
  · rw [hv, hw]
    rfl
  · rw [hv, hw, Option.map_some, Option.map_some, hR.label h']

/-- Labels tell lists and maps from everything else. -/
lemma node?_eq_none_iff (hR : Bisimulation s t R) (h : R v w) :
    v.node? = none ↔ w.node? = none := by
  rw [Store.node?_eq_none_iff s, Store.node?_eq_none_iff t, hR.label h]

lemma exists_eq_some_iff {α : Type} {a b : Option α} :
    (∃ x, a = some x ∧ b = some x) ↔ ¬ a = none ∧ a = b := by
  cases a <;> simp [eq_comm]

/-- Two paths meet in a list or map on one side exactly when they do on the other. -/
lemma nodeAt_meet (hR : Bisimulation s t R) (p q : List Nat) (h : R v w) :
    (∃ r, s.nodeAt v p = some r ∧ s.nodeAt v q = some r) ↔
      ∃ r, t.nodeAt w p = some r ∧ t.nodeAt w q = some r := by
  unfold Store.nodeAt
  rcases hR.follow p h with ⟨hv, hw⟩ | ⟨v₁, w₁, hv₁, hw₁, h₁⟩
  · simp [hv, hw]
  rcases hR.follow q h with ⟨hv, hw⟩ | ⟨v₂, w₂, hv₂, hw₂, h₂⟩
  · simp [hv, hw]
  simp only [hv₁, hw₁, hv₂, hw₂, Option.bind_some, exists_eq_some_iff]
  exact and_congr (not_congr (hR.node?_eq_none_iff h₁)) (hR.node h₁ h₂)

/-! ### Data -/

/-- Paths of containers agree when related values are on both or on neither. -/
def PathsAgree (R : Value → Value → Prop) (path path' : List Ref) : Prop :=
  ∀ {v w r r'}, R v w → v.node? = some r → w.node? = some r' → (r ∈ path ↔ r' ∈ path')

/-- Going one container down on both sides keeps paths in agreement. -/
lemma PathsAgree.cons (hR : Bisimulation s t R) {path path' : List Ref} {r r' : Ref}
    (hpath : PathsAgree R path path') (h : R v w) (hv : v.node? = some r)
    (hw : w.node? = some r') : PathsAgree R (r :: path) (r' :: path') := by
  intro u x q q' hux hu hx
  have hnode := hR.node hux h
  simp only [hu, hx, hv, hw, Option.some.injEq] at hnode
  rw [List.mem_cons, List.mem_cons, hnode, hpath hux hu hx]

/-- Related values have one datum below paths that agree. -/
lemma viewBelow_eq (hR : Bisimulation s t R) {path path' : List Ref}
    (hpath : PathsAgree R path path') (h : R v w) :
    v.viewBelow s path = w.viewBelow t path' := by
  have hlabel := hR.label h
  have hchildren := hR.children h
  induction path, v using Value.viewBelow.induct s generalizing path' w with
  | case1 | case2 | case3 | case4 | case5 | case6 | case7 =>
    cases w <;> simp_all [Store.label, Value.viewBelow]
  | case8 path r hmem =>
    cases w with
    | list r' =>
      rw [Value.viewBelow_list, Value.viewBelow_list, if_pos hmem,
        if_pos ((hpath h rfl rfl).1 hmem)]
    | _ => simp [Store.label] at hlabel
  | case9 path r hmem ih =>
    cases w with
    | list r' =>
      rw [Value.viewBelow_list, Value.viewBelow_list, if_neg hmem,
        if_neg (mt (hpath h rfl rfl).2 hmem), Datum.list.injEq]
      refine map_eq_map_of_forall₂ hchildren fun v hv w _ hvw => ?_
      exact ih v hv (hpath.cons hR h rfl rfl) hvw (hR.label hvw) (hR.children hvw)
    | _ => simp [Store.label] at hlabel
  | case10 path r hmem =>
    cases w with
    | map r' =>
      rw [Value.viewBelow_map, Value.viewBelow_map, if_pos hmem,
        if_pos ((hpath h rfl rfl).1 hmem)]
    | _ => simp [Store.label] at hlabel
  | case11 path r hmem ih =>
    cases w with
    | map r' =>
      have hkeys : (s.entries r).keys = (t.entries r').keys := Label.map.inj hlabel
      rw [Value.viewBelow_map, Value.viewBelow_map, if_neg hmem,
        if_neg (mt (hpath h rfl rfl).2 hmem), hkeys]
      congr 2
      refine map_eq_map_of_forall₂ hchildren fun v hv w _ hvw => ?_
      obtain ⟨e, he, rfl⟩ := List.mem_map.1 hv
      exact ih e he (hpath.cons hR h rfl rfl) hvw (hR.label hvw) (hR.children hvw)
    | _ => simp [Store.label] at hlabel

/-- Related values have the same datum. -/
theorem view_eq (hR : Bisimulation s t R) (h : R v w) : v.view s = w.view t := by
  refine hR.viewBelow_eq ?_ h
  intro v w r r' _ _ _
  simp

end Bisimulation

end Store

end Dynval
