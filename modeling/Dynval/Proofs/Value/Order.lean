import Dynval.Platform
import Dynval.Proofs.Value.Ordered

/-!
# Order of acyclic values

On acyclic values the lists being compared do not matter, and what holds of the order of two lists
holds of every answer of their comparison: it respects "identical or equal" and turns around with
its operands, also where the values are unordered or cannot be compared.
-/

namespace Dynval

namespace Value

variable {s : Store} {a b c : Value} {x y : Ref}

section

variable [FloatPrinter]

/-! ### Order below a path -/

/-- A comparison fails only on operands without an order. -/
lemma fault_of_compareBelow {path : List (Ref × Ref)} {f : Fault}
    (h : a.compareBelow s path b = .error f) :
    ∃ x y, f = .of .compare (.unsupportedOperands x y) := by
  induction path, a, b using compareBelow.induct s with
  | case1 path x y hmem =>
    rw [compareBelow, dif_pos hmem] at h
    cases h
  | case2 path x y hmem p hfind ih =>
    rw [compareBelow, dif_neg hmem] at h
    split at h
    · rename_i q hq
      obtain rfl : p = q := Option.some.inj (hfind.symm.trans hq)
      exact ih h
    · cases h
  | case3 path x y hmem hfind =>
    rw [compareBelow, dif_neg hmem] at h
    split at h
    · rename_i q hq
      rw [hfind] at hq
      cases hq
    · cases h
  | case4 path a b hlists =>
    rw [compareBelow] at h
    · exact fault_of_compareFlat h
    · exact hlists

/-- Pairs that do not start below an acyclic value do not matter for its order. -/
lemma orderBelow_eq_orderBelow (ha : s.Acyclic a) : ∀ b path path',
    (∀ p ∈ path, ¬ s.Reaches a p.1) → (∀ p ∈ path', ¬ s.Reaches a p.1) →
      a.orderBelow s path b = a.orderBelow s path' b := by
  refine ha.induction ?_
  intro a ha ih b path path' hpath hpath'
  by_cases hlists : ∀ x y, a = .list x → b ≠ .list y
  · rw [orderBelow_flat path hlists, orderBelow_flat path' hlists]
  · push Not at hlists
    obtain ⟨x, y, rfl, rfl⟩ := hlists
    have hnew : (x, y) ∉ path := fun h => hpath _ h (Store.reaches_of_node? rfl)
    have hnew' : (x, y) ∉ path' := fun h => hpath' _ h (Store.reaches_of_node? rfl)
    rw [orderBelow_list_iff hnew]
    refine ((orderBelow_list_iff hnew').1 rfl).imp_of_mem fun v hv w _ hvw => ?_
    rw [← hvw]
    refine ih v hv w _ _ ?_ ?_
    · exact List.forall_mem_cons.2 ⟨ha.not_reaches_child rfl hv,
        fun q hq hreach => hpath q hq (hreach.of_child hv)⟩
    · exact List.forall_mem_cons.2 ⟨ha.not_reaches_child rfl hv,
        fun q hq hreach => hpath' q hq (hreach.of_child hv)⟩

/-- Acyclic lists have the answer of their first elements that are not equal. -/
lemma order_list_iff (ha : s.Acyclic (.list x)) {answer : Option (Option Ordering)} :
    (Value.list x).order s (.list y) = answer ↔
      FirstDiffer s (fun o => some (some o) = answer) (fun v w => v.order s w = answer)
        (s.items x) (s.items y) := by
  have hpath : ∀ v ∈ s.items x, ∀ w, v.orderBelow s [(x, y)] w = v.order s w := fun v hv w =>
    orderBelow_eq_orderBelow (ha.child hv) w _ _ (by simpa using ha.not_reaches_child rfl hv)
      (by simp)
  have hstart : (x, y) ∉ ([] : List (Ref × Ref)) := List.not_mem_nil
  refine (orderBelow_list_iff hstart).trans ⟨fun h => ?_, fun h => ?_⟩
  · exact h.imp_of_mem fun v hv w _ hvw => hpath v hv w ▸ hvw
  · exact h.imp_of_mem fun v hv w _ hvw => (hpath v hv w).trans hvw

/-! ### Reversal -/

/-- Values without cycles compare the other way round on swapped sides. -/
lemma order_swap (ha : s.Acyclic a) :
    ∀ b, s.Acyclic b → (a.order s b).map (Option.map Ordering.swap) = b.order s a := by
  refine ha.induction ?_
  intro a ha ih b hb
  by_cases hlists : ∀ x y, a = .list x → b ≠ .list y
  · rw [order_flat hlists, order_flat fun y x hb ha => hlists x y ha hb, Facet.compare_swap]
  · push Not at hlists
    obtain ⟨x, y, rfl, rfl⟩ := hlists
    have hdiffer := (order_list_iff ha (y := y)).1 rfl
    have hswap : FirstDiffer s (fun o => some (some o) =
        ((Value.list x).order s (.list y)).map (Option.map .swap)) _ _ _ :=
      hdiffer.swap fun o ho => by rw [← ho]; rfl
    refine ((order_list_iff hb).2 (hswap.imp_of_mem fun w hw v hv hvw => ?_)).symm
    rw [← ih v hv w (hb.child hw)]
    exact congrArg _ hvw

/-! ### Order and equality -/

/-- Values that count as equal are ordered alike to all values. -/
lemma order_congr_left (ha : s.Acyclic a) : ∀ b c, s.Acyclic b → a.isOrEquals s b →
    a.order s c = b.order s c := by
  refine ha.induction ?_
  intro a ha ih b c hb hab
  by_cases hlists : ∀ x z, a = .list x → c ≠ .list z
  · -- only a list counts as equal to a list, so `b` and `c` are not two lists either
    have hlists' : ∀ y z, b = .list y → c ≠ .list z := by
      rintro y z rfl
      obtain ⟨x, rfl, -⟩ := exists_list_of_isOrEquals (isOrEquals_symm hab)
      exact hlists x z rfl
    rw [order_flat hlists, order_flat hlists', facet_eq_of_isOrEquals hab]
  · push Not at hlists
    obtain ⟨x, z, rfl, rfl⟩ := hlists
    obtain ⟨y, rfl, hitems⟩ := exists_list_of_isOrEquals hab
    refine ((order_list_iff hb).2 (((order_list_iff ha).1 rfl).congr_left hitems ?_)).symm
    exact fun v hv w _ u hu hvw hvu => (ih v hv u w (hb.child hu) hvu).symm.trans hvw

/-! ### Comparison -/

lemma kind_of_compare {f : Fault} (h : a.compare s b = .error f) : f.kind = .type := by
  obtain ⟨x, y, rfl⟩ := fault_of_compareBelow h
  rfl

/-- Two comparisons whose answers correspond both answer or both raise a type fault. -/
lemma compare_of_order_map {d : Value} {f : Option Ordering → Option Ordering}
    (h : (a.order s b).map f = c.order s d) :
    (∃ o, a.compare s b = .ok o ∧ c.compare s d = .ok (f o)) ∨
      ∃ e e', a.compare s b = .error e ∧ c.compare s d = .error e' ∧
        e.kind = .type ∧ e'.kind = .type := by
  cases hab : a.compare s b with
  | ok o =>
    rw [compare_eq_ok_iff] at hab
    rw [hab] at h
    exact Or.inl ⟨o, rfl, compare_eq_ok_iff.2 h.symm⟩
  | error e =>
    cases hcd : c.compare s d with
    | ok o =>
      rw [order, order, hab, hcd] at h
      cases h
    | error e' => exact Or.inr ⟨e, e', rfl, rfl, kind_of_compare hab, kind_of_compare hcd⟩

/-- On acyclic values "identical or equal" is an equivalence, which adds to equality only the floats
with identical bits, and values that are so related compare alike with every third value: both
comparisons give one answer or both raise a type fault. -/
theorem isOrEquals_equivalence_and_compare_congr (ha : s.Acyclic a) (hb : s.Acyclic b) :
    a.isOrEquals s a ∧
    a.isOrEquals s b = b.isOrEquals s a ∧
    (a.isOrEquals s b → b.isOrEquals s c → a.isOrEquals s c) ∧
    (a.isOrEquals s b ↔ a.equals s b ∨ ∃ x, a = .float x ∧ b = .float x) ∧
    (a.isOrEquals s b →
      (∃ o, a.compare s c = .ok o ∧ b.compare s c = .ok o) ∨
        ∃ e e', a.compare s c = .error e ∧ b.compare s c = .error e' ∧
          e.kind = .type ∧ e'.kind = .type) := by
  refine ⟨isOrEquals_refl s a, ?_, isOrEquals_trans, isOrEquals_iff, fun hab => ?_⟩
  · exact Bool.eq_iff_iff.2 ⟨isOrEquals_symm, isOrEquals_symm⟩
  · refine compare_of_order_map (f := id) ?_
    rw [Option.map_id_fun, id, order_congr_left ha b c hb hab]

end

section

attribute [local instance] Platform.standard

/-- Two rows of mixed kinds that hold the same NaN count as equal, and neither can be compared with
a row that has a text in the place of the NaN. -/
theorem mixed_rows_compare_alike :
    let s : Store := ⟨#[.byteArray [97], .list [.bool true, .float .nan, .byteArray ⟨0⟩],
      .list [.float .one, .float .nan, .bytes [97]], .list [.int 1, .str "nan"]]⟩
    s.Acyclic (.list ⟨1⟩) ∧ s.Acyclic (.list ⟨2⟩) ∧
    (Value.list ⟨1⟩).isOrEquals s (.list ⟨2⟩) ∧
    ∃ e e', (Value.list ⟨1⟩).compare s (.list ⟨3⟩) = .error e ∧
      (Value.list ⟨2⟩).compare s (.list ⟨3⟩) = .error e' ∧ e.kind = .type ∧ e'.kind = .type := by
  intro s
  have hs : s.Layered := by decide
  have heq : (Value.list ⟨1⟩).isOrEquals s (.list ⟨2⟩) := by decide +kernel
  have hnone : (Value.list ⟨1⟩).order s (.list ⟨3⟩) = none := by decide +kernel
  refine ⟨hs.acyclic _, hs.acyclic _, heq, ?_⟩
  obtain ⟨-, -, -, -, hcompare⟩ :=
    isOrEquals_equivalence_and_compare_congr (c := .list ⟨3⟩) (hs.acyclic _) (hs.acyclic _)
  refine (hcompare heq).resolve_left ?_
  rintro ⟨o, ho, -⟩
  rw [compare_eq_ok_iff, hnone] at ho
  cases ho

end

/-- On acyclic values a comparison turns around with its operands: the answers are each other's
reverse, where unordered stays unordered, or both raise a type fault. And "below" is a strict
partial order: what is below something below a third value is below it, neither unordered nor
impossible to compare, whether the third value is acyclic or not. -/
theorem compare_reverse_and_strict_order [FloatPrinter] (ha : s.Acyclic a) (hb : s.Acyclic b) :
    ((∃ o, a.compare s b = .ok o ∧ b.compare s a = .ok (o.map Ordering.swap)) ∨
      ∃ e e', a.compare s b = .error e ∧ b.compare s a = .error e' ∧
        e.kind = .type ∧ e'.kind = .type) ∧
    a.compare s a ≠ .ok (some .lt) ∧
    (a.compare s b = .ok (some .lt) → b.compare s c = .ok (some .lt) →
      a.compare s c = .ok (some .lt)) := by
  refine ⟨compare_of_order_map (order_swap ha b hb), ?_, ?_⟩
  · exact Ordered.irrefl (by decide)
  · exact Ordered.lt_trans

section

attribute [local instance] Platform.standard

/-- Three nested rows that differ first inside and then outside, with a NaN on the way. -/
theorem nested_rows_below :
    let s : Store := ⟨#[.list [.int 1], .list [.int 1, .float .nan], .list [.bool true, .list ⟨0⟩],
      .list [.float .one, .list ⟨1⟩], .list [.int 2]]⟩
    s.Acyclic (.list ⟨2⟩) ∧ s.Acyclic (.list ⟨3⟩) ∧ s.Acyclic (.list ⟨4⟩) ∧
    (Value.list ⟨2⟩).compare s (.list ⟨3⟩) = .ok (some .lt) ∧
    (Value.list ⟨3⟩).compare s (.list ⟨4⟩) = .ok (some .lt) ∧
    (Value.list ⟨2⟩).compare s (.list ⟨4⟩) = .ok (some .lt) := by
  intro s
  have hs : s.Layered := by decide
  have hfirst : (Value.list ⟨2⟩).compare s (.list ⟨3⟩) = .ok (some .lt) :=
    compare_eq_ok_iff.2 (by decide +kernel)
  have hsecond : (Value.list ⟨3⟩).compare s (.list ⟨4⟩) = .ok (some .lt) :=
    compare_eq_ok_iff.2 (by decide +kernel)
  obtain ⟨-, -, htrans⟩ := compare_reverse_and_strict_order (hs.acyclic _) (hs.acyclic _)
  exact ⟨hs.acyclic _, hs.acyclic _, hs.acyclic _, hfirst, hsecond, htrans hfirst hsecond⟩

end

end Value

end Dynval
