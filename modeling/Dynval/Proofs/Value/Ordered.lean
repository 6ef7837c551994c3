import Dynval.Proofs.Key.Order
import Dynval.Proofs.Value.Equality

/-!
# Ordered values

Two lists are ordered by the first elements that are not equal, and by their lengths when there are
none (`Value.FirstDiffer`). A comparison follows pairs of lists downwards, and where lists are below
themselves it may come back to a pair and stay without an order. A comparison that finds an order
never does (`orderedBelow_cons_or`). So in every store the order of two lists is that of their first
elements that are not equal (`ordered_list_iff`), and for the pairs that have an order it turns
around with its operands, respects "identical or equal", is a tie only of equal values and is
transitive.
-/

namespace Dynval

lemma compareBytes_eq_iff {xs ys : List UInt8} : compareBytes xs ys = .eq ↔ xs = ys := by
  rw [compareBytes, compareLex_eq]
  exact Std.LawfulEqCmp.compare_eq_iff_eq

lemma Text.compare_eq_iff {x y : String} : Text.compare x y = .eq ↔ x = y := by
  rw [Text.compare, compareBytes_eq_iff, Text.utf8_injective.eq_iff]

/-- A tie of two facets: they are one facet, and it has an order. -/
lemma Facet.compare_eq_iff {f g : Facet} :
    f.compare g = some (some .eq) ↔ f = g ∧ f.isReflexive ∧ f ≠ .nil := by
  cases f <;> cases g <;>
    simp [compare, isReflexive, compareUnits_eq_iff, compareBytes_eq_iff, Text.compare_eq_iff]

namespace Value

variable {s : Store} {o : Ordering} {a b c : Value} {x y : Ref} {path : List (Ref × Ref)}

/-! ### Lists by their first different elements -/

/-- Whether the first elements of two lists that are not equal are related by `R`, or there are none
and `L` holds of the order of the lengths. -/
inductive FirstDiffer (s : Store) (L : Ordering → Prop) (R : Value → Value → Prop) :
    List Value → List Value → Prop
  | length {vs ws : List Value} (hend : vs = [] ∨ ws = [])
      (hlength : L (Ord.compare vs.length ws.length)) : FirstDiffer s L R vs ws
  | here {v w : Value} {vs ws : List Value} (hne : v.equals s w = false) (h : R v w) :
    FirstDiffer s L R (v :: vs) (w :: ws)
  | later {v w : Value} {vs ws : List Value} (heq : v.equals s w) (h : FirstDiffer s L R vs ws) :
    FirstDiffer s L R (v :: vs) (w :: ws)

namespace FirstDiffer

variable {L L' : Ordering → Prop} {R S T : Value → Value → Prop} {vs ws us : List Value}

lemma imp_of_mem (h : FirstDiffer s L R vs ws) (himp : ∀ v ∈ vs, ∀ w ∈ ws, R v w → S v w) :
    FirstDiffer s L S vs ws := by
  induction h with
  | length hend hlength => exact .length hend hlength
  | here hne h => exact .here hne (himp _ List.mem_cons_self _ List.mem_cons_self h)
  | later heq _ ih =>
    exact .later heq (ih fun v hv w hw =>
      himp v (List.mem_cons_of_mem _ hv) w (List.mem_cons_of_mem _ hw))

lemma imp (h : FirstDiffer s L R vs ws) (himp : ∀ v w, R v w → S v w) : FirstDiffer s L S vs ws :=
  h.imp_of_mem fun v _ w _ => himp v w

/-- Turned around, the lists differ first at the same place. -/
lemma swap (h : FirstDiffer s L R vs ws) (hL : ∀ o, L o → L' o.swap) :
    FirstDiffer s L' (flip R) ws vs := by
  induction h with
  | length hend hlength =>
    refine .length hend.symm ?_
    rw [← Nat.compare_swap]
    exact hL _ hlength
  | here hne h => exact .here (equals_comm s _ _ ▸ hne) h
  | later heq _ ih => exact .later (equals_symm heq) ih

/-- Elements that count as equal do not change where two lists differ. -/
lemma congr_right (h : FirstDiffer s L R vs ws)
    (hws : List.Forall₂ (fun w u => w.isOrEquals s u) ws us)
    (hcongr : ∀ v ∈ vs, ∀ w ∈ ws, ∀ u ∈ us, R v w → w.isOrEquals s u → S v u) :
    FirstDiffer s L S vs us := by
  have hequals : ∀ {v w u : Value}, w.isOrEquals s u → v.equals s w = v.equals s u := by
    intro v w u hwu
    rw [equals_comm s v w, equals_congr hwu, equals_comm]
  induction h generalizing us with
  | length hend hlength =>
    rw [hws.length_eq] at hlength
    refine .length (hend.imp_right ?_) hlength
    rintro rfl
    exact List.forall₂_nil_left_iff.1 hws
  | here hne h =>
    cases hws with
    | cons hwu _ =>
      exact .here (hequals hwu ▸ hne)
        (hcongr _ List.mem_cons_self _ List.mem_cons_self _ List.mem_cons_self h hwu)
  | later heq _ ih =>
    cases hws with
    | cons hwu hws =>
      exact .later (hequals hwu ▸ heq) (ih hws fun v hv w hw u hu =>
        hcongr v (List.mem_cons_of_mem _ hv) w (List.mem_cons_of_mem _ hw) u
          (List.mem_cons_of_mem _ hu))

lemma congr_left (h : FirstDiffer s L R vs ws)
    (hvs : List.Forall₂ (fun v u => v.isOrEquals s u) vs us)
    (hcongr : ∀ v ∈ vs, ∀ w ∈ ws, ∀ u ∈ us, R v w → v.isOrEquals s u → S u w) :
    FirstDiffer s L S us ws := by
  have hswap : FirstDiffer s (fun o => L o.swap) (flip R) ws vs :=
    h.swap fun o ho => by rwa [Ordering.swap_swap]
  refine (hswap.congr_right (S := flip S) hvs ?_).swap fun o ho => ho
  exact fun w hw v hv u hu => hcongr v hv w hw u hu

/-- Lists that nowhere differ and have one length hold equal elements. -/
lemma forall₂_equals (h : FirstDiffer s (· = .eq) R vs ws) (hR : ∀ v w, R v w → v.equals s w) :
    List.Forall₂ (fun v w => v.equals s w) vs ws := by
  induction h with
  | length hend ho =>
    rw [Nat.compare_eq_eq] at ho
    rcases hend with rfl | rfl
    · rw [List.eq_nil_of_length_eq_zero ho.symm]
      exact .nil
    · rw [List.eq_nil_of_length_eq_zero ho]
      exact .nil
  | here hne h =>
    rw [hR _ _ h] at hne
    cases hne
  | later heq _ ih => exact .cons heq ih

/-- The first elements that differ may stand at different places of the two pairs of lists. -/
lemma trans (hvw : FirstDiffer s (· = .lt) R vs ws) (hwu : FirstDiffer s (· = .lt) S ws us)
    (htrans : ∀ v w u, R v w → S w u → T v u) (hleft : ∀ v w u, R v w → w.equals s u → T v u)
    (hright : ∀ v w u, v.equals s w → S w u → T v u)
    (hne : ∀ v u, T v u → v.equals s u = false) : FirstDiffer s (· = .lt) T vs us := by
  have hhere : ∀ {v u vs us}, T v u → FirstDiffer s (· = .lt) T (v :: vs) (u :: us) :=
    fun h => .here (hne _ _ h) h
  induction hvw generalizing us with
  | @length vs ws hend ho =>
    -- the first list is the shorter one, so it has ended
    obtain rfl : vs = [] := by
      refine hend.resolve_right ?_
      rintro rfl
      simp [Nat.compare_eq_lt] at ho
    refine .length (Or.inl rfl) ?_
    cases hwu with
    | length _ ho' =>
      rw [Nat.compare_eq_lt] at ho ho' ⊢
      exact ho.trans ho'
    | here => simp [Nat.compare_eq_lt]
    | later => simp [Nat.compare_eq_lt]
  | here hvw h =>
    cases hwu with
    | length hend ho' =>
      obtain rfl := hend.resolve_left (List.cons_ne_nil _ _)
      simp [Nat.compare_eq_lt] at ho'
    | here _ h' => exact hhere (htrans _ _ _ h h')
    | later heq' _ => exact hhere (hleft _ _ _ h heq')
  | later heq _ ih =>
    cases hwu with
    | length hend ho' =>
      obtain rfl := hend.resolve_left (List.cons_ne_nil _ _)
      simp [Nat.compare_eq_lt] at ho'
    | here _ h' => exact hhere (hright _ _ _ heq h')
    | later heq' h' => exact .later (equals_trans heq heq') (ih h')

/-- The search for the first elements that are not equal finds those that decide. -/
lemma iff_find? : FirstDiffer s L R vs ws ↔
    match (vs.zip ws).find? fun p => !p.1.equals s p.2 with
    | some p => R p.1 p.2
    | none => L (Ord.compare vs.length ws.length) := by
  induction vs generalizing ws with
  | nil => exact ⟨fun h => by cases h; assumption, fun h => .length (Or.inl rfl) h⟩
  | cons v vs ih =>
    cases ws with
    | nil => exact ⟨fun h => by cases h; assumption, fun h => .length (Or.inr rfl) h⟩
    | cons w ws =>
      have hlength : Ord.compare (v :: vs).length (w :: ws).length =
          Ord.compare vs.length ws.length := by simp [Nat.compare_eq_ite_lt]
      rw [List.zip_cons_cons, List.find?_cons, hlength]
      cases hvw : v.equals s w with
      | false =>
        refine ⟨fun h => ?_, fun h => .here hvw h⟩
        cases h with
        | length hend => simp at hend
        | here _ h => exact h
        | later heq => rw [hvw] at heq; cases heq
      | true =>
        refine Iff.trans ⟨fun h => ?_, fun h => .later hvw h⟩ ih
        cases h with
        | length hend => simp at hend
        | here hne => rw [hvw] at hne; cases hne
        | later _ h => exact h

end FirstDiffer

variable [FloatPrinter]

/-! ### Answers -/

/-- The answer of a comparison below a path, if there is one. -/
def orderBelow (s : Store) (path : List (Ref × Ref)) (a b : Value) : Option (Option Ordering) :=
  (a.compareBelow s path b).toOption

def order (s : Store) (a b : Value) : Option (Option Ordering) :=
  (a.compare s b).toOption

lemma compare_eq_ok_iff {o : Option Ordering} :
    a.compare s b = .ok o ↔ a.order s b = some o := by
  rw [order]
  cases a.compare s b <;> simp [Except.toOption]

/-- Lists are compared by their first elements that are not equal, and else by their lengths. -/
lemma compareBelow_list (path : List (Ref × Ref)) :
    (Value.list x).compareBelow s path (.list y) =
      if (x, y) ∈ path then .ok none
      else
        match ((s.items x).zip (s.items y)).find? fun p => !p.1.equals s p.2 with
        | some p => p.1.compareBelow s ((x, y) :: path) p.2
        | none => .ok (some (Ord.compare (s.items x).length (s.items y).length)) := by
  rw [compareBelow]
  split_ifs
  · rfl
  · split
    · rename_i hfind
      rw [hfind]
    · rename_i hfind
      rw [hfind]

/-- A pair of lists that is not met inside itself has the answer of the first elements that are not
equal. -/
lemma orderBelow_list_iff {answer : Option (Option Ordering)} (hmem : (x, y) ∉ path) :
    (Value.list x).orderBelow s path (.list y) = answer ↔
      FirstDiffer s (fun o => some (some o) = answer)
        (fun v w => v.orderBelow s ((x, y) :: path) w = answer) (s.items x) (s.items y) := by
  rw [orderBelow, compareBelow_list, if_neg hmem, FirstDiffer.iff_find?]
  cases ((s.items x).zip (s.items y)).find? fun p => !p.1.equals s p.2 <;> rfl

/-- Values that are not two lists are ordered by their facets. -/
lemma orderBelow_flat (path : List (Ref × Ref)) (h : ∀ x y, a = .list x → b ≠ .list y) :
    a.orderBelow s path b = (a.facet s).compare (b.facet s) := by
  rw [orderBelow, compareBelow, toOption_compareFlat]
  exact h

lemma order_flat (h : ∀ x y, a = .list x → b ≠ .list y) :
    a.order s b = (a.facet s).compare (b.facet s) :=
  orderBelow_flat [] h

/-! ### Order below a path -/

/-- Whether two values have an order below a path. -/
def OrderedBelow (s : Store) (path : List (Ref × Ref)) (o : Ordering) (a b : Value) : Prop :=
  a.compareBelow s path b = .ok (some o)

def Ordered (s : Store) (o : Ordering) (a b : Value) : Prop :=
  a.compare s b = .ok (some o)

lemma orderedBelow_iff : OrderedBelow s path o a b ↔ a.orderBelow s path b = some (some o) := by
  rw [OrderedBelow, orderBelow]
  cases a.compareBelow s path b <;> simp [Except.toOption]

lemma orderedBelow_flat_iff (h : ∀ x y, a = .list x → b ≠ .list y) :
    OrderedBelow s path o a b ↔ (a.facet s).compare (b.facet s) = some (some o) := by
  rw [orderedBelow_iff, orderBelow_flat path h]

/-- Lists have an order when their first elements that are not equal have it, or else their lengths.
-/
lemma orderedBelow_list_iff : OrderedBelow s path o (.list x) (.list y) ↔ (x, y) ∉ path ∧
    FirstDiffer s (· = o) (OrderedBelow s ((x, y) :: path) o) (s.items x) (s.items y) := by
  rw [OrderedBelow, compareBelow_list, FirstDiffer.iff_find?]
  split_ifs with hmem
  · simp [hmem]
  · cases ((s.items x).zip (s.items y)).find? fun p => !p.1.equals s p.2 <;>
      simp [hmem, OrderedBelow]

/-- Induction along a comparison that finds an order. -/
lemma orderedBelow_induction {motive : List (Ref × Ref) → Value → Value → Prop}
    (flat : ∀ path a b, (∀ x y, a = .list x → b ≠ .list y) →
      (a.facet s).compare (b.facet s) = some (some o) → motive path a b)
    (list : ∀ path x y, (x, y) ∉ path →
      FirstDiffer s (· = o) (fun v w => OrderedBelow s ((x, y) :: path) o v w ∧
        motive ((x, y) :: path) v w) (s.items x) (s.items y) → motive path (.list x) (.list y))
    (h : OrderedBelow s path o a b) : motive path a b := by
  induction path, a, b using compareBelow.induct s with
  | case1 path x y hmem => exact absurd hmem (orderedBelow_list_iff.1 h).1
  | case2 path x y hmem p hfind ih =>
    have hp := FirstDiffer.iff_find?.1 (orderedBelow_list_iff.1 h).2
    rw [hfind] at hp
    refine list path x y hmem (FirstDiffer.iff_find?.2 ?_)
    rw [hfind]
    exact ⟨hp, ih hp⟩
  | case3 path x y hmem hfind =>
    have hlength := FirstDiffer.iff_find?.1 (orderedBelow_list_iff.1 h).2
    rw [hfind] at hlength
    refine list path x y hmem (FirstDiffer.iff_find?.2 ?_)
    rwa [hfind]
  | case4 path a b hlists => exact flat path a b hlists ((orderedBelow_flat_iff hlists).1 h)

/-- What is ordered below more pairs is ordered below fewer. -/
lemma orderedBelow_mono (h : OrderedBelow s path o a b) :
    ∀ path', path' ⊆ path → OrderedBelow s path' o a b := by
  refine orderedBelow_induction
    (motive := fun path a b => ∀ path', path' ⊆ path → OrderedBelow s path' o a b) ?_ ?_ h
  · intro path a b hlists hfacet path' _
    exact (orderedBelow_flat_iff hlists).2 hfacet
  · intro path x y hmem hitems path' hsub
    refine orderedBelow_list_iff.2 ⟨fun h => hmem (hsub h), hitems.imp fun v w hvw => ?_⟩
    exact hvw.2 _ (List.cons_subset_cons _ hsub)

/-- One more pair to be left out either does not matter, or the two are found ordered without it. -/
lemma orderedBelow_cons_or (x y : Ref) (h : OrderedBelow s path o a b) :
    OrderedBelow s ((x, y) :: path) o a b ∨ OrderedBelow s path o (.list x) (.list y) := by
  refine orderedBelow_induction (motive := fun path a b =>
    OrderedBelow s ((x, y) :: path) o a b ∨ OrderedBelow s path o (.list x) (.list y)) ?_ ?_ h
  · intro path a b hlists hfacet
    exact Or.inl ((orderedBelow_flat_iff hlists).2 hfacet)
  · intro path x' y' hmem hitems
    rw [or_iff_not_imp_right]
    intro hxy
    have hne : (x', y') ≠ (x, y) := by
      rintro ⟨⟩
      exact hxy (orderedBelow_list_iff.2 ⟨hmem, hitems.imp fun v w => And.left⟩)
    refine orderedBelow_list_iff.2 ⟨List.not_mem_cons_of_ne_of_not_mem hne hmem,
      hitems.imp fun v w hvw => ?_⟩
    rcases hvw.2 with hvw | hbelow
    · exact orderedBelow_mono hvw _ (List.Perm.swap (x, y) (x', y') path).subset
    · exact absurd (orderedBelow_mono hbelow _ (List.subset_cons_self _ _)) hxy

/-! ### Order -/

lemma ordered_flat_iff (h : ∀ x y, a = .list x → b ≠ .list y) :
    Ordered s o a b ↔ (a.facet s).compare (b.facet s) = some (some o) :=
  orderedBelow_flat_iff h

/-- What has an order to a list is a list. -/
lemma exists_list_of_ordered (h : Ordered s o (.list x) b) : ∃ y, b = .list y := by
  cases b with
  | list y => exact ⟨y, rfl⟩
  | _ =>
    rw [ordered_flat_iff fun _ _ _ => by simp] at h
    cases h

/-- Lists are ordered by their first elements that are not equal. -/
lemma ordered_list_iff : Ordered s o (.list x) (.list y) ↔
    FirstDiffer s (· = o) (Ordered s o) (s.items x) (s.items y) := by
  constructor
  · intro h
    refine (orderedBelow_list_iff.1 h).2.imp fun v w hvw => ?_
    exact orderedBelow_mono hvw _ (List.nil_subset _)
  · intro h
    by_contra hne
    refine hne (orderedBelow_list_iff.2 ⟨List.not_mem_nil, h.imp fun v w hvw => ?_⟩)
    exact (orderedBelow_cons_or x y hvw).resolve_right hne

/-- Induction along a comparison that finds an order, where lists are compared by their elements. -/
lemma ordered_induction {motive : Value → Value → Prop}
    (flat : ∀ a b, (∀ x y, a = .list x → b ≠ .list y) →
      (a.facet s).compare (b.facet s) = some (some o) → motive a b)
    (list : ∀ x y, FirstDiffer s (· = o) (fun v w => Ordered s o v w ∧ motive v w) (s.items x)
      (s.items y) → motive (.list x) (.list y))
    (h : Ordered s o a b) : motive a b := by
  refine orderedBelow_induction (motive := fun _ => motive) (fun _ => flat) ?_ h
  intro _ x y _ hitems
  refine list x y (hitems.imp fun v w hvw => ⟨?_, hvw.2⟩)
  exact orderedBelow_mono hvw.1 _ (List.nil_subset _)

namespace Ordered

/-- An order holds the other way round on swapped sides. -/
lemma swap (h : Ordered s o a b) : Ordered s o.swap b a := by
  refine ordered_induction (motive := fun a b => Ordered s o.swap b a) ?_ ?_ h
  · intro a b hlists hfacet
    rw [ordered_flat_iff fun y x hb ha => hlists x y ha hb, ← Facet.compare_swap, hfacet]
    rfl
  · intro x y hitems
    exact ordered_list_iff.2
      ((hitems.swap fun _ => congrArg Ordering.swap).imp fun v w => And.right)

/-- An order does not tell values apart that count as equal. -/
lemma congr_right (h : Ordered s o a b) (hbc : b.isOrEquals s c) : Ordered s o a c := by
  refine ordered_induction
    (motive := fun a b => ∀ c, b.isOrEquals s c → Ordered s o a c) ?_ ?_ h c hbc
  · -- only a list counts as equal to a list, so `a` and `c` are not two lists either
    intro a b hlists hfacet c hbc
    have hlists' : ∀ x z, a = .list x → c ≠ .list z := by
      rintro x z rfl rfl
      obtain ⟨y, rfl, -⟩ := exists_list_of_isOrEquals (isOrEquals_symm hbc)
      exact hlists x y rfl rfl
    rw [ordered_flat_iff hlists', ← facet_eq_of_isOrEquals hbc, hfacet]
  · intro x y hitems c hbc
    obtain ⟨z, rfl, hitems'⟩ := exists_list_of_isOrEquals hbc
    exact ordered_list_iff.2
      (hitems.congr_right hitems' fun v _ w _ u _ hvw hwu => hvw.2 u hwu)

lemma congr_left (h : Ordered s o a b) (hac : a.isOrEquals s c) : Ordered s o c b := by
  have hswap := (h.swap.congr_right hac).swap
  rwa [Ordering.swap_swap] at hswap

/-- A tie is an equality. -/
lemma equals (h : Ordered s .eq a b) : a.equals s b := by
  refine ordered_induction (motive := fun a b => a.equals s b) ?_ ?_ h
  · intro a b _ hfacet
    obtain ⟨hfacet, hrefl, -⟩ := Facet.compare_eq_iff.1 hfacet
    exact (equals_leaf_iff (node?_eq_none_of_isReflexive hrefl)).2 ⟨hfacet, hrefl⟩
  · intro x y hitems
    refine equals_list_iff.2 ⟨y, rfl, (hitems.forall₂_equals fun _ _ => And.right).imp ?_⟩
    exact fun v w hvw => isOrEquals_iff.2 (Or.inl hvw)

/-- Nothing is below itself. -/
lemma irrefl (ho : o ≠ .eq) : ¬ Ordered s o a a := by
  intro h
  have hswap := h.symm.trans h.swap
  cases o <;> simp_all

lemma equals_eq_false (ho : o ≠ .eq) (h : Ordered s o a b) : a.equals s b = false := by
  rw [← Bool.not_eq_true]
  intro heq
  exact irrefl ho (h.congr_left (isOrEquals_iff.2 (Or.inl heq)))

/-- Being below is transitive. -/
lemma lt_trans (hab : Ordered s .lt a b) (hbc : Ordered s .lt b c) : Ordered s .lt a c := by
  refine ordered_induction
    (motive := fun a b => ∀ c, Ordered s .lt b c → Ordered s .lt a c) ?_ ?_ hab c hbc
  · intro a b _ hfacet c hbc
    have hb : ∀ y z, b = .list y → c ≠ .list z := by
      rintro y z rfl
      rw [show (Value.list y).facet s = .container from rfl, Facet.compare_container] at hfacet
      cases hfacet
    have ha : ∀ x z, a = .list x → c ≠ .list z := by
      rintro x z rfl
      cases hfacet
    rw [ordered_flat_iff hb] at hbc
    exact (ordered_flat_iff ha).2 (Facet.compare_lt_trans hfacet hbc)
  · intro x y hitems c hbc
    obtain ⟨z, rfl⟩ := exists_list_of_ordered hbc
    refine ordered_list_iff.2 (hitems.trans (ordered_list_iff.1 hbc) ?_ ?_ ?_ ?_)
    · exact fun v w u hvw hwu => hvw.2 u hwu
    · exact fun v w u hvw hwu => hvw.1.congr_right (isOrEquals_iff.2 (Or.inl hwu))
    · exact fun v w u hvw hwu => hwu.congr_left (isOrEquals_iff.2 (Or.inl (equals_symm hvw)))
    · exact fun v u => equals_eq_false (by decide)

/-- What has one order to a second value has it to all that the second value has it to. -/
lemma trans (hab : Ordered s o a b) (hbc : Ordered s o b c) : Ordered s o a c := by
  cases o with
  | lt => exact hab.lt_trans hbc
  | eq => exact hab.congr_right (isOrEquals_iff.2 (Or.inl hbc.equals))
  | gt => exact (hbc.swap.lt_trans hab.swap).swap

end Ordered

end Value

end Dynval
