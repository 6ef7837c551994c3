import Dynval.Proofs.Value.Order

/-!
# Ties of acyclic values

A comparison of two acyclic values that comes out as a tie says that the values are equal. The
converse fails for lists that hold a NaN: lists count a NaN as equal to itself, while their order
stops at the first elements that are not equal, and a NaN is unordered to itself. Only a NaN among
the elements of the two lists does so. Further down it does not matter, since a list inside equals
itself.
-/

namespace Dynval

lemma Facet.eq_some_eq_of_compare_self {f : Facet} (hrefl : f.isReflexive)
    {o : Option Ordering} (ho : f.compare f = some o) : o = some .eq := by
  have hne : f ≠ .nil := by
    rintro rfl
    cases ho
  rw [compare_eq_iff.2 ⟨rfl, hrefl, hne⟩] at ho
  exact (Option.some.inj ho).symm

namespace Value

variable {s : Store} {a b : Value} {x y : Ref}

def isNaN : Value → Bool
  | .float x => x.isNaN
  | _ => false

/-- Whether a NaN is among the elements of a value. -/
def holdsNaN (a : Value) (s : Store) : Bool :=
  (s.children a).any isNaN

/-- Every value but a NaN equals itself. -/
lemma equals_self_iff : a.equals s a ↔ a.isNaN = false := by
  cases a with
  | float x =>
    rw [equals_leaf_iff rfl, isNaN]
    cases hx : x.isNaN <;> simp [facet, Facet.isReflexive, Number.units?, hx]
  | _ => exact iff_of_true ((equals_self_or_float s _).resolve_right (by simp)) rfl

/-- A NaN equals nothing. -/
lemma isNaN_eq_false_of_equals (h : a.equals s b) : a.isNaN = false := by
  cases a with
  | float x =>
    obtain ⟨-, hrefl⟩ := (equals_leaf_iff rfl).1 h
    exact equals_self_iff.1 ((equals_leaf_iff (s := s) rfl).2 ⟨rfl, hrefl⟩)
  | _ => rfl

/-- A value that is no list is ordered by its facet. -/
lemma order_of_not_list [FloatPrinter] (ha : ∀ x, a ≠ .list x) :
    a.order s b = (a.facet s).compare (b.facet s) :=
  order_flat fun x _ hx => absurd hx (ha x)

/-! ### Elements -/

/-- Elements that count as equal one by one are tied, up to a NaN. -/
lemma firstDiffer_of_isOrEquals [FloatPrinter] {vs ws : List Value}
    (h : List.Forall₂ (fun v w => v.isOrEquals s w) vs ws) {answer : Option (Option Ordering)}
    (hanswer : answer = some (if vs.any isNaN then none else some .eq)) :
    FirstDiffer s (fun o => some (some o) = answer) (fun v w => v.order s w = answer) vs ws := by
  induction h with
  | nil => exact .length (Or.inl rfl) hanswer.symm
  | @cons v w vs ws hvw _ ih =>
    by_cases hequals : v.equals s w
    · rw [List.any_cons, isNaN_eq_false_of_equals hequals, Bool.false_or] at hanswer
      exact .later hequals (ih hanswer)
    · -- identical and not equal: the two are one NaN
      obtain rfl : v = w := (isOrEquals_iff_eq_or_equals.1 hvw).resolve_right hequals
      obtain ⟨x, rfl⟩ := (equals_self_or_float s v).resolve_left hequals
      have hnan : x.isNaN := by simpa [equals_self_iff, isNaN] using hequals
      refine .here (Bool.eq_false_iff.2 hequals) ?_
      rw [hanswer, order_of_not_list (by simp)]
      simp [facet, Number.units?, hnan, Facet.compare, compareUnits, isNaN]

/-- Equal lists are tied, unless a NaN is among their elements. -/
lemma order_of_equals_list [FloatPrinter] (ha : s.Acyclic (.list x))
    (h : (Value.list x).equals s b) :
    (Value.list x).order s b = some (if (Value.list x).holdsNaN s then none else some .eq) := by
  obtain ⟨y, rfl, hitems⟩ := equals_list_iff.1 h
  exact (order_list_iff ha).2 (firstDiffer_of_isOrEquals hitems rfl)

/-- The answer of a comparison of equal values, if there is one. -/
lemma order_of_equals [FloatPrinter] (ha : s.Acyclic a) (h : a.equals s b) {o : Option Ordering}
    (ho : a.order s b = some o) : o = if a.holdsNaN s then none else some .eq := by
  by_cases hlist : ∃ x, a = .list x
  · obtain ⟨x, rfl⟩ := hlist
    rw [order_of_equals_list ha h] at ho
    exact (Option.some.inj ho).symm
  · rw [order_of_not_list (not_exists.1 hlist)] at ho
    cases hnode : a.node? with
    | none =>
      obtain ⟨hfacet, hrefl⟩ := (equals_leaf_iff hnode).1 h
      rw [← hfacet] at ho
      rw [Facet.eq_some_eq_of_compare_self hrefl ho, holdsNaN, Store.children_eq_nil hnode]
      rfl
    | some r =>
      -- a map has no order
      cases a with
      | list x => exact absurd ⟨x, rfl⟩ hlist
      | map x => cases ho
      | _ => cases hnode

/-- A comparison of acyclic values is a tie just when the values are equal and no NaN is among the
elements of the first; with a NaN there, equal values are unordered. In particular a list is tied
with itself unless a NaN is among its elements. -/
theorem compare_tie_iff_equals_without_nan [FloatPrinter] (ha : s.Acyclic a) {o : Option Ordering}
    (h : a.compare s b = .ok o) :
    (o = some .eq ↔ a.equals s b ∧ a.holdsNaN s = false) ∧
    (a.equals s b → a.holdsNaN s → o = none) ∧
    (∀ x, a = .list x →
      a.compare s a = .ok (if a.holdsNaN s then none else some .eq)) := by
  rw [compare_eq_ok_iff] at h
  refine ⟨⟨?_, ?_⟩, ?_, ?_⟩
  · rintro rfl
    have hequals := Ordered.equals (compare_eq_ok_iff.2 h)
    have ho := order_of_equals ha hequals h
    refine ⟨hequals, ?_⟩
    by_contra hnan
    simp [hnan] at ho
  · rintro ⟨hequals, hnan⟩
    rw [order_of_equals ha hequals h, hnan]
    rfl
  · intro hequals hnan
    rw [order_of_equals ha hequals h, if_pos hnan]
  · rintro x rfl
    rw [compare_eq_ok_iff]
    exact order_of_equals_list ha ((equals_self_or_float s _).resolve_right (by simp))

section

attribute [local instance] Platform.standard

/-- Two rows of mixed kinds are tied, although a list with a NaN stands in both. -/
theorem rows_tied_over_inner_nan :
    let s : Store := ⟨#[.byteArray [97], .list [.float .nan],
      .list [.bool true, .list ⟨1⟩, .byteArray ⟨0⟩], .list [.float .one, .list ⟨1⟩, .bytes [97]]]⟩
    s.Acyclic (.list ⟨2⟩) ∧ (Value.list ⟨2⟩).compare s (.list ⟨3⟩) = .ok (some .eq) ∧
      (Value.list ⟨2⟩).equals s (.list ⟨3⟩) ∧ (Value.list ⟨2⟩).holdsNaN s = false := by
  intro s
  have hs : s.Layered := by decide
  have htie : (Value.list ⟨2⟩).compare s (.list ⟨3⟩) = .ok (some .eq) :=
    compare_eq_ok_iff.2 (by decide +kernel)
  obtain ⟨hiff, -, -⟩ := compare_tie_iff_equals_without_nan (hs.acyclic _) htie
  exact ⟨hs.acyclic _, htie, hiff.1 rfl⟩

/-- A list of one NaN equals itself, and its comparison with itself is no tie. -/
theorem list_of_nan_equals_itself_untied :
    let s : Store := ⟨#[.list [.float .nan]]⟩
    s.Acyclic (.list ⟨0⟩) ∧ (Value.list ⟨0⟩).equals s (.list ⟨0⟩) ∧
      (Value.list ⟨0⟩).compare s (.list ⟨0⟩) = .ok none := by
  intro s
  have hs : s.Layered := by decide
  exact ⟨hs.acyclic _, by decide +kernel, compare_eq_ok_iff.2 (by decide +kernel)⟩

end

end Value

end Dynval
