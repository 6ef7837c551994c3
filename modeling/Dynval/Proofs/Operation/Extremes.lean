import Dynval.Operation.Apply
import Dynval.Platform
import Dynval.Proofs.Action.Basic
import Dynval.Proofs.Value.Ordered

/-!
# Least and greatest values

`min` and `max` keep one value while they go through the candidates and give it up only for a value
that is strictly below or above it. When the candidates have an order to each other, the value kept
is always the first extreme of those seen (`IsFirstExtreme.concat`), hence at the end of them all.
Candidates that hold themselves are no exception.
-/

namespace Dynval

namespace Value

variable {s : Store} {o : Ordering} {v w : Value} {vs : List Value}

/-- Whether two values have an order to each other. -/
def Comparable [FloatPrinter] (s : Store) (v w : Value) : Prop :=
  ∃ o, v.compare s w = .ok (some o)

lemma Comparable.symm [FloatPrinter] (h : Comparable s v w) : Comparable s w v := by
  obtain ⟨o, ho⟩ := h
  exact ⟨o.swap, Ordered.swap ho⟩

instance [FloatPrinter] (s : Store) : Std.Symm (Comparable s) :=
  ⟨fun _ _ => Comparable.symm⟩

/-- Whether a value is the first of some values such that none of them has the order to it. -/
def IsFirstExtreme [FloatPrinter] (s : Store) (o : Ordering) (vs : List Value) (v : Value) : Prop :=
  ∃ i : Nat, vs[i]? = some v ∧ (∀ w ∈ vs, w.compare s v ≠ .ok (some o)) ∧
    ∀ j < i, ∀ u, vs[j]? = some u → ∃ w ∈ vs, w.compare s u = .ok (some o)

namespace IsFirstExtreme

/-- The first extreme is one of the values. -/
lemma mem [FloatPrinter] (h : IsFirstExtreme s o vs v) : v ∈ vs := by
  obtain ⟨i, hi, -⟩ := h
  exact List.mem_of_getElem? hi

/-- A single value is its own extreme. -/
lemma singleton [FloatPrinter] (ho : o ≠ .eq) (s : Store) (v : Value) :
    IsFirstExtreme s o [v] v := by
  refine ⟨0, rfl, fun w hw => ?_, by simp⟩
  rw [List.mem_singleton.1 hw]
  exact Ordered.irrefl ho

/-- What has the order to the first extreme of some values has it to all of them. -/
lemma ordered_of_mem [FloatPrinter] (h : IsFirstExtreme s o vs v) (ho : o ≠ .eq)
    (hvs : vs.Pairwise (Comparable s)) (hw : Ordered s o w v) : ∀ u ∈ vs, Ordered s o w u := by
  intro u hu
  by_cases huv : u = v
  · rwa [huv]
  obtain ⟨p, hp⟩ := hvs.forall hu h.mem huv
  obtain ⟨-, -, hextreme, -⟩ := h
  have hne : p ≠ o := by
    rintro rfl
    exact hextreme u hu hp
  have hback : Ordered s p.swap v u := Ordered.swap hp
  -- `u` does not have the order to `v`, so `v` has it to `u` or they are tied
  by_cases htie : p = .eq
  · subst htie
    exact hw.congr_right (isOrEquals_iff.2 (Or.inl hback.equals))
  · obtain rfl : p.swap = o := by cases o <;> cases p <;> simp_all
    exact hw.trans hback

/-- One more candidate: it takes the place of the first extreme if it has the order to it. -/
lemma concat [FloatPrinter] {p : Ordering} (h : IsFirstExtreme s o vs v) (ho : o ≠ .eq)
    (hvs : vs.Pairwise (Comparable s)) (hp : w.compare s v = .ok (some p)) :
    IsFirstExtreme s o (vs ++ [w]) (if p = o then w else v) := by
  split_ifs with hpo
  · subst hpo
    have hbelow := h.ordered_of_mem ho hvs hp
    refine ⟨vs.length, by simp, ?_, fun j hj u hu => ?_⟩
    · rw [List.forall_mem_append, List.forall_mem_singleton]
      refine ⟨fun u hu hwu => ?_, Ordered.irrefl ho⟩
      exact Ordered.irrefl ho (Ordered.trans hwu (hbelow u hu))
    · rw [List.getElem?_append_left hj] at hu
      exact ⟨w, by simp, hbelow u (List.mem_of_getElem? hu)⟩
  · obtain ⟨i, hi, hextreme, hfirst⟩ := h
    have hlt : i < vs.length := (List.getElem?_eq_some_iff.1 hi).1
    refine ⟨i, by rw [List.getElem?_append_left hlt, hi], ?_, fun j hj u hu => ?_⟩
    · rw [List.forall_mem_append, List.forall_mem_singleton]
      refine ⟨hextreme, ?_⟩
      rw [hp]
      simpa using hpo
    · rw [List.getElem?_append_left (hj.trans hlt)] at hu
      obtain ⟨u', hu', horder⟩ := hfirst j hj u hu
      exact ⟨u', List.mem_append_left _ hu', horder⟩

end IsFirstExtreme

/-- Of two values the second is preferred only where it has the order to the first. -/
lemma prefer_of_compare [FloatPrinter] {p : Ordering} (h : w.compare s v = .ok (some p)) :
    prefer o s v w = .ok (if p = o then w else v) := by
  rw [prefer, h]
  change Except.ok (if some p = some o then w else v) = _
  simp only [Option.some.injEq]

/-- Going through the candidates ends with their first extreme. -/
lemma exists_foldlM_prefer [FloatPrinter] (ho : o ≠ .eq) (first : Value) (rest : List Value)
    (h : (first :: rest).Pairwise (Comparable s)) :
    ∃ v, rest.foldlM (prefer o s) first = .ok v ∧ IsFirstExtreme s o (first :: rest) v := by
  induction rest using List.reverseRecOn with
  | nil => exact ⟨first, rfl, .singleton ho s first⟩
  | append_singleton rest w ih =>
    rw [← List.cons_append, List.pairwise_append] at h
    obtain ⟨hseen, -, hnext⟩ := h
    obtain ⟨v, hfold, hv⟩ := ih hseen
    obtain ⟨p, hp⟩ := (hnext v hv.mem w List.mem_cons_self).symm
    refine ⟨if p = o then w else v, ?_, hv.concat ho hseen hp⟩
    rw [List.foldlM_append, hfold]
    change [w].foldlM (prefer o s) v = _
    rw [List.foldlM_cons, prefer_of_compare hp]
    rfl

end Value

namespace Operation

variable {s : Store} {o : Ordering}

/-- The values among which `min` and `max` choose: the arguments, or the items of a single one. -/
def candidates (s : Store) : List Value → List Value
  | [v] => (v.items? s).getD []
  | args => args

/-- Iterating a value changes nothing. -/
lemma exists_items_eq (s : Store) (v : Value) : ∃ events,
    (Sequence.items v : Action Fault (List Value)) s =
      ⟨.ok ((v.items? s).getD []), s, events⟩ := by
  unfold Sequence.items
  rw [Action.query_bind_apply]
  cases v.items? s <;> exact ⟨_, rfl⟩

/-- The choice is made among the candidates. -/
lemma result_pickFrom (op : Operation) (pick : Store → Value → Value → Except Fault Value)
    (args : List Value) : (pickFrom op pick args s).result =
      match candidates s args with
      | [] => .error (.of op (.emptySequence ⟨"[]", .list⟩))
      | first :: rest => rest.foldlM (pick s) first := by
  unfold pickFrom
  match args with
  | [] => rfl
  | [v] =>
    obtain ⟨events, hitems⟩ := exists_items_eq s v
    dsimp only [candidates]
    rw [Action.bind_apply, hitems]
    cases (v.items? s).getD [] <;> rfl
  | v :: w :: rest => rfl

/-- Among candidates that all have an order to each other the first extreme is picked. -/
lemma exists_pickFrom_prefer [FloatPrinter] (ho : o ≠ .eq) (op : Operation) {args : List Value}
    (hne : candidates s args ≠ []) (h : (candidates s args).Pairwise (Value.Comparable s)) :
    ∃ v, (pickFrom op (Value.prefer o) args s).result = .ok v ∧
      Value.IsFirstExtreme s o (candidates s args) v := by
  rw [result_pickFrom]
  generalize candidates s args = vs at hne h
  cases vs with
  | nil => exact absurd rfl hne
  | cons first rest => exact Value.exists_foldlM_prefer ho first rest h

/-- Among candidates that have an order to each other, `min` answers the first one that no candidate
is below and `max` the first one that no candidate is above. Without candidates both raise a value
fault. -/
theorem min_max_pick_first_extreme [Platform] (s : Store) (args : List Value) (policy : Policy) :
    (candidates s args = [] → ∀ op ∈ [min, max],
      ∃ f, (op.apply args policy s).result = .error f ∧ f.kind = .value) ∧
    (candidates s args ≠ [] → (candidates s args).Pairwise (Value.Comparable s) →
      (∃ v, (min.apply args policy s).result = .ok v ∧
        Value.IsFirstExtreme s .lt (candidates s args) v) ∧
      ∃ v, (max.apply args policy s).result = .ok v ∧
        Value.IsFirstExtreme s .gt (candidates s args) v) := by
  refine ⟨fun hnil => ?_, fun hne h => ⟨?_, ?_⟩⟩
  · have hfault : ∀ op pick, (pickFrom op pick args s).result =
        .error (.of op (.emptySequence ⟨"[]", .list⟩)) := fun op pick => by
      rw [result_pickFrom, hnil]
    simp only [List.forall_mem_cons]
    exact ⟨⟨_, hfault _ _, rfl⟩, ⟨_, hfault _ _, rfl⟩, by simp⟩
  · exact exists_pickFrom_prefer (by decide) min hne h
  · exact exists_pickFrom_prefer (by decide) max hne h

section

attribute [local instance] Platform.standard

/-- Three rows that hold rows which hold themselves: the last two are tied, and `min` answers the
first of them. -/
theorem min_max_of_rows_in_themselves :
    let s : Store := ⟨#[.list [.int 2, .list ⟨0⟩], .list [.int 1, .list ⟨1⟩],
      .list [.float .one, .list ⟨1⟩]]⟩
    let args : List Value := [.list ⟨0⟩, .list ⟨1⟩, .list ⟨2⟩]
    (candidates s args).Pairwise (Value.Comparable s) ∧
      (min.apply args .lenient s).result = .ok (.list ⟨1⟩) ∧
      Value.IsFirstExtreme s .lt args (.list ⟨1⟩) ∧
      (max.apply args .lenient s).result = .ok (.list ⟨0⟩) ∧
      Value.IsFirstExtreme s .gt args (.list ⟨0⟩) := by
  intro s args
  have hfirst : (Value.list ⟨0⟩).compare s (.list ⟨1⟩) = .ok (some .gt) :=
    Value.compare_eq_ok_iff.2 (by decide +kernel)
  have hlast : (Value.list ⟨0⟩).compare s (.list ⟨2⟩) = .ok (some .gt) :=
    Value.compare_eq_ok_iff.2 (by decide +kernel)
  have htie : (Value.list ⟨1⟩).compare s (.list ⟨2⟩) = .ok (some .eq) :=
    Value.compare_eq_ok_iff.2 (by decide +kernel)
  have hargs : (candidates s args).Pairwise (Value.Comparable s) := by
    simp [args, candidates, Value.Comparable, hfirst, hlast, htie]
  obtain ⟨-, hpick⟩ := min_max_pick_first_extreme s args .lenient
  obtain ⟨⟨v, hv, hmin⟩, ⟨w, hw, hmax⟩⟩ := hpick (by simp [args, candidates]) hargs
  have hv' : (min.apply args .lenient s).result.toOption = some (.list ⟨1⟩) := by decide +kernel
  have hw' : (max.apply args .lenient s).result.toOption = some (.list ⟨0⟩) := by decide +kernel
  rw [hv] at hv' ⊢
  rw [hw] at hw' ⊢
  obtain rfl := Option.some.inj hv'
  obtain rfl := Option.some.inj hw'
  exact ⟨hargs, rfl, hmin, rfl, hmax⟩

end

end Operation

end Dynval
