import Dynval.Proofs.Store.Paths
import Dynval.Proofs.Value.Facet

/-!
# Equality

Two lists are equal when their elements are identical or equal one by one, two maps when their
entries have the same keys and their values are (`equals_node_iff`), other values when they have one
reflexive facet (`equals_leaf_iff`). So "identical or equal" is an equivalence, and differs from
equality only on the floats that do not equal themselves.

This holds as well where containers are below themselves. Equality leaves out the pairs of
containers that are being compared, but what needs such a pair could do with it as it is found
further down (`equalsBelow_cons_or`), so leaving it out changes nothing.
-/

namespace Dynval

namespace Value

variable {s : Store} {a b c : Value} {x y : Ref} {path : List (Value × Value)}

/-- Identical values are one value. -/
lemma sameObject_iff : a.sameObject b ↔ a = b := by
  cases a <;> cases b <;> simp [sameObject]

lemma isOrEquals_iff_eq_or_equals : a.isOrEquals s b ↔ a = b ∨ a.equals s b := by
  rw [isOrEquals, Bool.or_eq_true, sameObject_iff]

/-! ### Equality below a path -/

/-- Whether two values count as equal below a path. -/
def EqualBelow (s : Store) (path : List (Value × Value)) (v w : Value) : Prop :=
  v = w ∨ v.equalsBelow s path w

lemma sameObject_or_equalsBelow :
    (a.sameObject b || a.equalsBelow s path b) ↔ EqualBelow s path a b := by
  rw [Bool.or_eq_true, sameObject_iff, EqualBelow]

lemma all_attach_zip_iff {α β : Type} {as : List α} {bs : List β} {R : α → β → Prop}
    {f : {p // p ∈ as.zip bs} → Bool} (hf : ∀ p h, f ⟨p, h⟩ ↔ R p.1 p.2) :
    (as.length == bs.length && (as.zip bs).attach.all f) ↔ List.Forall₂ R as bs := by
  rw [Bool.and_eq_true, beq_iff_eq, List.all_eq_true, List.forall₂_iff_zip]
  refine and_congr_right fun _ => ⟨fun h a b hab => ?_, fun h p _ => ?_⟩
  · exact (hf (a, b) hab).1 (h ⟨(a, b), hab⟩ (List.mem_attach _ _))
  · exact (hf p.1 p.2).2 (h p.2)

/-- Lists are equal when they are one list, or are not being compared already and have equal
elements. -/
lemma equalsBelow_list_iff :
    (Value.list x).equalsBelow s path (.list y) ↔ x = y ∨ ((.list x, .list y) ∉ path ∧
      List.Forall₂ (EqualBelow s ((.list x, .list y) :: path)) (s.items x) (s.items y)) := by
  rw [equalsBelow, Bool.or_eq_true, beq_iff_eq]
  refine or_congr_right ?_
  split_ifs with hmem
  · simp [hmem]
  · rw [and_iff_right hmem]
    exact all_attach_zip_iff fun _ _ => sameObject_or_equalsBelow

/-- Whether two entries have the same key and values that count as equal below a path. -/
def EqualEntriesBelow (s : Store) (path : List (Value × Value)) (e f : Key × Value) : Prop :=
  e.1 = f.1 ∧ EqualBelow s path e.2 f.2

/-- Maps are equal when they are one map, or are not being compared already and have equal entries.
-/
lemma equalsBelow_map_iff :
    (Value.map x).equalsBelow s path (.map y) ↔ x = y ∨ ((.map x, .map y) ∉ path ∧
      List.Forall₂ (EqualEntriesBelow s ((.map x, .map y) :: path)) (s.entries x)
        (s.entries y)) := by
  rw [equalsBelow, Bool.or_eq_true, beq_iff_eq]
  refine or_congr_right ?_
  split_ifs with hmem
  · simp [hmem]
  · rw [and_iff_right hmem]
    refine all_attach_zip_iff fun p _ => ?_
    rw [Bool.and_eq_true, beq_iff_eq, sameObject_or_equalsBelow, EqualEntriesBelow]

/-- Values that are neither two lists nor two maps are compared by their facets. -/
lemma equalsBelow_leaf_iff (ha : a.node? = none) :
    a.equalsBelow s path b ↔ a.facet s = b.facet s ∧ (a.facet s).isReflexive := by
  rw [← equalsFlat_iff]
  cases a with
  | list r => cases ha
  | map r => cases ha
  | _ => rw [equalsBelow] <;> simp

lemma forall₂_and_iff {α β : Type} {R S : α → β → Prop} {as : List α} {bs : List β} :
    List.Forall₂ (fun a b => R a b ∧ S a b) as bs ↔
      List.Forall₂ R as bs ∧ List.Forall₂ S as bs :=
  ⟨fun h => ⟨h.imp fun _ _ => And.left, h.imp fun _ _ => And.right⟩,
    fun h => h.1.mp (fun _ _ => And.intro) h.2⟩

lemma forall₂_entries_iff {R : Value → Value → Prop} {es fs : Entries Value} :
    List.Forall₂ (fun e f => e.1 = f.1 ∧ R e.2 f.2) es fs ↔
      es.keys = fs.keys ∧ List.Forall₂ R (es.map Prod.snd) (fs.map Prod.snd) := by
  rw [forall₂_and_iff, Entries.keys, Entries.keys, ← List.forall₂_eq_eq_eq,
    List.forall₂_map_left_iff, List.forall₂_map_right_iff, List.forall₂_map_left_iff,
    List.forall₂_map_right_iff]

lemma node?_eq_none_of_isReflexive (h : (a.facet s).isReflexive) : a.node? = none := by
  cases a <;> simp_all [facet, Facet.isReflexive, node?]

/-- Lists and maps are compared by what is seen of them and by what they hold. -/
lemma equalsBelow_node_iff (ha : a.node?.isSome) :
    a.equalsBelow s path b ↔ a = b ∨ ((a, b) ∉ path ∧ s.label a = s.label b ∧
      List.Forall₂ (EqualBelow s ((a, b) :: path)) (s.children a) (s.children b)) := by
  cases a with
  | list x =>
    cases b with
    | list y =>
      rw [equalsBelow_list_iff, Value.list.injEq]
      refine or_congr_right (and_congr_right fun _ => ?_)
      exact ⟨fun h => ⟨congrArg Label.list h.length_eq, h⟩, And.right⟩
    | _ => simp [equalsBelow, equalsFlat_iff, facet, Facet.isReflexive, Store.label]
  | map x =>
    cases b with
    | map y =>
      rw [equalsBelow_map_iff, Value.map.injEq]
      refine or_congr_right (and_congr_right fun _ => ?_)
      rw [Store.label, Store.label, Label.map.injEq]
      exact forall₂_entries_iff
    | _ => simp [equalsBelow, equalsFlat_iff, facet, Facet.isReflexive, Store.label]
  | _ => cases ha

/-- Induction along an equality: what holds of values with one reflexive facet, of a container and
itself, and of containers that look alike and hold values of which it holds. -/
lemma equalsBelow_induction {motive : List (Value × Value) → Value → Value → Prop}
    (leaf : ∀ path a b, a.node? = none → a.facet s = b.facet s → (a.facet s).isReflexive →
      motive path a b)
    (same : ∀ path a, a.node?.isSome → motive path a a)
    (node : ∀ path a b, a.node?.isSome → (a, b) ∉ path → s.label a = s.label b →
      List.Forall₂ (fun v w => v = w ∨ v.equalsBelow s ((a, b) :: path) w ∧
        motive ((a, b) :: path) v w) (s.children a) (s.children b) → motive path a b)
    (h : a.equalsBelow s path b) : motive path a b := by
  -- a pair of containers, with the induction hypothesis for the values they hold
  have hnode : ∀ {path a b}, a.node?.isSome →
      ((a, b) ∉ path → ∀ p ∈ (s.children a).zip (s.children b),
        p.1.equalsBelow s ((a, b) :: path) p.2 → motive ((a, b) :: path) p.1 p.2) →
      a.equalsBelow s path b → motive path a b := by
    intro path a b ha ih h
    rcases (equalsBelow_node_iff ha).1 h with rfl | ⟨hmem, hlabel, hchildren⟩
    · exact same path a ha
    · refine node path a b ha hmem hlabel ?_
      rw [List.forall₂_iff_zip] at hchildren ⊢
      refine ⟨hchildren.1, fun {v w} hvw => ?_⟩
      exact (hchildren.2 hvw).imp_right fun h => ⟨h, ih hmem (v, w) hvw h⟩
  induction path, a, b using equalsBelow.induct s with
  | case1 path x y ih => exact hnode rfl (fun hmem p hp => ih hmem p hp) h
  | case2 path x y ih =>
    refine hnode rfl (fun hmem p hp => ?_) h
    rw [Store.children, Store.children, List.zip_map, List.mem_map] at hp
    obtain ⟨q, hq, rfl⟩ := hp
    exact ih hmem q hq
  | case3 path a b hlists hmaps =>
    rw [equalsBelow, equalsFlat_iff] at h
    · exact leaf path a b (node?_eq_none_of_isReflexive h.2) h.1 h.2
    · exact hlists
    · exact hmaps

/-- What is equal below more pairs is equal below fewer. -/
lemma equalsBelow_mono (h : a.equalsBelow s path b) :
    ∀ path', path' ⊆ path → a.equalsBelow s path' b := by
  refine equalsBelow_induction
    (motive := fun path a b => ∀ path', path' ⊆ path → a.equalsBelow s path' b) ?_ ?_ ?_ h
  · intro path a b ha hfacet hrefl path' _
    exact (equalsBelow_leaf_iff ha).2 ⟨hfacet, hrefl⟩
  · intro path a ha path' _
    exact (equalsBelow_node_iff ha).2 (Or.inl rfl)
  · intro path a b ha hmem hlabel hchildren path' hsub
    refine (equalsBelow_node_iff ha).2 (Or.inr ⟨fun h => hmem (hsub h), hlabel, ?_⟩)
    exact hchildren.imp fun v w => Or.imp_right fun h => h.2 _ (List.cons_subset_cons _ hsub)

/-- One more pair to be left out either does not matter, or the two are found equal without it. -/
lemma equalsBelow_cons_or (p : Value × Value) (h : a.equalsBelow s path b) :
    a.equalsBelow s (p :: path) b ∨ p.1.equalsBelow s path p.2 := by
  refine equalsBelow_induction (motive := fun path a b =>
    a.equalsBelow s (p :: path) b ∨ p.1.equalsBelow s path p.2) ?_ ?_ ?_ h
  · intro path a b ha hfacet hrefl
    exact Or.inl ((equalsBelow_leaf_iff ha).2 ⟨hfacet, hrefl⟩)
  · intro path a ha
    exact Or.inl ((equalsBelow_node_iff ha).2 (Or.inl rfl))
  · intro path a b ha hmem hlabel hchildren
    rw [or_iff_not_imp_right]
    intro hp
    have hne : (a, b) ≠ p := by
      rintro rfl
      exact hp ((equalsBelow_node_iff ha).2 (Or.inr ⟨hmem, hlabel,
        hchildren.imp fun v w => Or.imp_right And.left⟩))
    refine (equalsBelow_node_iff ha).2 (Or.inr ⟨List.not_mem_cons_of_ne_of_not_mem hne hmem,
      hlabel, hchildren.imp fun v w => Or.imp_right fun hvw => ?_⟩)
    rcases hvw.2 with hvw | hbelow
    · exact equalsBelow_mono hvw _ (List.Perm.swap p (a, b) path).subset
    · exact absurd (equalsBelow_mono hbelow _ (List.subset_cons_self _ _)) hp

/-! ### Equality -/

lemma isOrEquals_refl (s : Store) (a : Value) : a.isOrEquals s a :=
  isOrEquals_iff_eq_or_equals.2 (Or.inl rfl)

/-- Values with nothing below them are equal when their facets are, unless they are NaNs. -/
lemma equals_leaf_iff (ha : a.node? = none) :
    a.equals s b ↔ a.facet s = b.facet s ∧ (a.facet s).isReflexive :=
  equalsBelow_leaf_iff ha

/-- A list or map equals what looks like it and holds values identical or equal to its own. -/
lemma equals_node_iff (ha : a.node?.isSome) : a.equals s b ↔ s.label a = s.label b ∧
    List.Forall₂ (fun v w => v.isOrEquals s w) (s.children a) (s.children b) := by
  simp only [isOrEquals_iff_eq_or_equals]
  constructor
  · intro h
    rcases (equalsBelow_node_iff ha).1 h with rfl | ⟨-, hlabel, hchildren⟩
    · exact ⟨rfl, List.forall₂_same.2 fun v _ => Or.inl rfl⟩
    · exact ⟨hlabel, hchildren.imp fun v w => Or.imp_right fun h =>
        equalsBelow_mono h _ (List.nil_subset _)⟩
  · rintro ⟨hlabel, hchildren⟩
    by_contra hne
    refine hne ((equalsBelow_node_iff ha).2 (Or.inr ⟨List.not_mem_nil, hlabel, ?_⟩))
    exact hchildren.imp fun v w => Or.imp_right fun h =>
      (equalsBelow_cons_or (a, b) h).resolve_right hne

lemma isSome_node?_of_label_eq (h : s.label a = s.label b) (ha : a.node?.isSome) :
    b.node?.isSome := by
  rw [Option.isSome_iff_ne_none, ne_eq, Store.node?_eq_none_iff s] at ha ⊢
  rwa [← h]

/-- A list equals the lists with elements identical or equal to its own. -/
lemma equals_list_iff : (Value.list x).equals s b ↔
    ∃ y, b = .list y ∧ List.Forall₂ (fun v w => v.isOrEquals s w) (s.items x) (s.items y) := by
  rw [equals_node_iff rfl]
  constructor
  · rintro ⟨hlabel, hitems⟩
    cases b with
    | list y => exact ⟨y, rfl, hitems⟩
    | _ => cases hlabel
  · rintro ⟨y, rfl, hitems⟩
    exact ⟨congrArg Label.list hitems.length_eq, hitems⟩

/-- Induction along an equality, where containers are compared by what they hold. -/
lemma equals_induction {motive : Value → Value → Prop}
    (leaf : ∀ a b, a.node? = none → a.facet s = b.facet s → (a.facet s).isReflexive → motive a b)
    (node : ∀ a b, a.node?.isSome → s.label a = s.label b →
      List.Forall₂ (fun v w => v = w ∨ v.equals s w ∧ motive v w) (s.children a) (s.children b) →
        motive a b)
    (h : a.equals s b) : motive a b := by
  refine equalsBelow_induction (motive := fun _ => motive) (fun _ => leaf) ?_ ?_ h
  · intro _ a ha
    exact node a a ha rfl (List.forall₂_same.2 fun v _ => Or.inl rfl)
  · intro _ a b ha _ hlabel hchildren
    refine node a b ha hlabel (hchildren.imp fun v w => Or.imp_right fun hvw => ?_)
    exact ⟨equalsBelow_mono hvw.1 _ (List.nil_subset _), hvw.2⟩

/-- Everything but a NaN equals itself. -/
lemma equals_self_or_float (s : Store) (a : Value) : a.equals s a ∨ ∃ x, a = .float x := by
  cases a with
  | list r => exact Or.inl ((equalsBelow_node_iff rfl).2 (Or.inl rfl))
  | map r => exact Or.inl ((equalsBelow_node_iff rfl).2 (Or.inl rfl))
  | float x => exact Or.inr ⟨x, rfl⟩
  | _ => exact Or.inl ((equals_leaf_iff rfl).2 ⟨rfl, rfl⟩)

/-- Identity adds to equality only the floats with identical bits. -/
lemma isOrEquals_iff : a.isOrEquals s b ↔ a.equals s b ∨ ∃ x, a = .float x ∧ b = .float x := by
  rw [isOrEquals_iff_eq_or_equals]
  constructor
  · rintro (rfl | h)
    · exact (equals_self_or_float s a).imp_right fun ⟨x, hx⟩ => ⟨x, hx, hx⟩
    · exact Or.inl h
  · rintro (h | ⟨x, rfl, rfl⟩)
    · exact Or.inr h
    · exact Or.inl rfl

/-! ### Symmetry and transitivity -/

/-- Equality does not depend on the order of its sides. -/
lemma equals_symm (h : a.equals s b) : b.equals s a := by
  refine equals_induction (motive := fun a b => b.equals s a) ?_ ?_ h
  · -- a reflexive facet is not that of a list or map, so `b` has nothing below it either
    intro a b _ hfacet hrefl
    rw [hfacet] at hrefl
    exact (equals_leaf_iff (node?_eq_none_of_isReflexive hrefl)).2 ⟨hfacet.symm, hrefl⟩
  · intro a b ha hlabel hchildren
    refine (equals_node_iff (isSome_node?_of_label_eq hlabel ha)).2 ⟨hlabel.symm, .flip ?_⟩
    exact hchildren.imp fun v w hvw => isOrEquals_iff_eq_or_equals.2 (hvw.imp Eq.symm And.right)

lemma equals_comm (s : Store) (a b : Value) : a.equals s b = b.equals s a :=
  Bool.eq_iff_iff.2 ⟨equals_symm, equals_symm⟩

lemma isOrEquals_symm (h : a.isOrEquals s b) : b.isOrEquals s a := by
  rw [isOrEquals_iff_eq_or_equals] at h ⊢
  exact h.imp Eq.symm equals_symm

lemma forall₂_comp {α : Type} {R S T : α → α → Prop} {as bs cs : List α}
    (hcomp : ∀ a b c, R a b → S b c → T a c) (hab : List.Forall₂ R as bs)
    (hbc : List.Forall₂ S bs cs) : List.Forall₂ T as cs := by
  induction hab generalizing cs with
  | nil =>
    cases hbc
    exact .nil
  | cons hab _ ih =>
    cases hbc with
    | cons hbc hbcs => exact .cons (hcomp _ _ _ hab hbc) (ih hbcs)

/-- Equality is transitive, also through different containers. -/
lemma equals_trans (hab : a.equals s b) (hbc : b.equals s c) : a.equals s c := by
  refine equals_induction (motive := fun a b => ∀ c, b.equals s c → a.equals s c) ?_ ?_ hab c hbc
  · intro a b ha hfacet hrefl c hbc
    have hb : b.node? = none := node?_eq_none_of_isReflexive (hfacet ▸ hrefl)
    rw [equals_leaf_iff ha, hfacet, ← equals_leaf_iff hb]
    exact hbc
  · intro a b ha hlabel hchildren c hbc
    obtain ⟨hlabel', hchildren'⟩ :=
      (equals_node_iff (isSome_node?_of_label_eq hlabel ha)).1 hbc
    refine (equals_node_iff ha).2 ⟨hlabel.trans hlabel', forall₂_comp ?_ hchildren hchildren'⟩
    rintro v w u (rfl | ⟨hvw, htrans⟩) hwu
    · exact hwu
    · rw [isOrEquals_iff_eq_or_equals] at hwu ⊢
      rcases hwu with rfl | hwu
      · exact Or.inr hvw
      · exact Or.inr (htrans u hwu)

/-- Counting as equal is transitive. -/
lemma isOrEquals_trans (hab : a.isOrEquals s b) (hbc : b.isOrEquals s c) : a.isOrEquals s c := by
  rw [isOrEquals_iff_eq_or_equals] at hab hbc ⊢
  rcases hab with rfl | hab
  · exact hbc
  rcases hbc with rfl | hbc
  · exact Or.inr hab
  · exact Or.inr (equals_trans hab hbc)

lemma exists_list_of_isOrEquals (h : (Value.list x).isOrEquals s b) :
    ∃ y, b = .list y ∧ List.Forall₂ (fun v w => v.isOrEquals s w) (s.items x) (s.items y) := by
  rcases isOrEquals_iff.1 h with h | ⟨_, ⟨⟩, _⟩
  exact equals_list_iff.1 h

/-- Values that count as equal equal the same values. -/
lemma equals_congr (h : a.isOrEquals s b) : a.equals s c = b.equals s c := by
  rw [isOrEquals_iff_eq_or_equals] at h
  rcases h with rfl | h
  · rfl
  · exact Bool.eq_iff_iff.2 ⟨equals_trans (equals_symm h), equals_trans h⟩

/-- Values that count as equal have one facet. -/
lemma facet_eq_of_isOrEquals (h : a.isOrEquals s b) : a.facet s = b.facet s := by
  rw [isOrEquals_iff_eq_or_equals] at h
  rcases h with rfl | h
  · rfl
  refine equals_induction (fun _ _ _ hfacet _ => hfacet) (fun a b ha hlabel _ => ?_) h
  cases a <;> cases b <;> simp_all [Store.label, facet, node?]

end Value

end Dynval
