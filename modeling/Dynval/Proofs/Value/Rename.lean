import Dynval.Operation.Apply
import Dynval.Proofs.Datum.Text
import Dynval.Proofs.Store.Rename
import Dynval.Proofs.Value.Order

/-!
# What is read of values does not depend on addresses

When a renaming embeds one store into another, everything that is read of values there is read of
the renamed values: texts, lengths, elements, equality, order, and the results and faults of the
operations that only read.
-/

namespace Dynval

/-! ### Readings that need no store -/

section

variable (f : Ref → Ref) (v : Value)

namespace Value

@[simp] lemma kind_rename : (v.rename f).kind = v.kind := by cases v <;> rfl

@[simp] lemma number?_rename : (v.rename f).number? = v.number? := by cases v <;> rfl

@[simp] lemma integer?_rename : (v.rename f).integer? = v.integer? := by cases v <;> rfl

@[simp] lemma toInt_rename : (v.rename f).toInt = v.toInt := by cases v <;> rfl

@[simp] lemma toIntEvents_rename : (v.rename f).toIntEvents = v.toIntEvents := by cases v <;> rfl

@[simp] lemma toFloat_rename : (v.rename f).toFloat = v.toFloat := by cases v <;> rfl

@[simp] lemma toFloatEvents_rename : (v.rename f).toFloatEvents = v.toFloatEvents := by
  cases v <;> rfl

@[simp] lemma neutralDefault_rename : (v.rename f).neutralDefault = v.neutralDefault.rename f := by
  cases v <;> rfl

@[simp] lemma rename_ofNat (n : Nat) : (ofNat n).rename f = ofNat n := rfl

@[simp] lemma rename_ofByte (b : UInt8) : (ofByte b).rename f = ofByte b := rfl

@[simp] lemma rename_ofChar (c : Char) : (ofChar c).rename f = ofChar c := rfl

@[simp] lemma rename_eq_str_iff {u : String} : v.rename f = .str u ↔ v = .str u := by
  cases v <;> simp

@[simp] lemma rename_eq_int_iff {i : Int64} : v.rename f = .int i ↔ v = .int i := by
  cases v <;> simp

lemma exists_of_rename_eq_list {r : Ref} (h : v.rename f = .list r) : ∃ q, v = .list q := by
  cases v <;> simp_all

lemma exists_of_rename_eq_map {r : Ref} (h : v.rename f = .map r) : ∃ q, v = .map q := by
  cases v <;> simp_all

/-- A renaming makes no lists. -/
lemma not_lists_rename {v w : Value} (h : ∀ x y, v = .list x → w = .list y → False) :
    ∀ x y, v.rename f = .list x → w.rename f = .list y → False := by
  intro x y hx hy
  obtain ⟨x, rfl⟩ := exists_of_rename_eq_list f v hx
  obtain ⟨y, rfl⟩ := exists_of_rename_eq_list f w hy
  exact h x y rfl rfl

/-- A renaming that keeps addresses apart keeps values apart. -/
lemma rename_injective {f : Ref → Ref} (hf : Function.Injective f) :
    Function.Injective (Value.rename f) := by
  intro v w h
  cases v <;> cases w <;> simp_all [hf.eq_iff]

end Value

@[simp] lemma Number.rename_toValue (x : Number) : x.toValue.rename f = x.toValue := by
  cases x <;> rfl

@[simp] lemma Key.rename_toValue (k : Key) : k.toValue.rename f = k.toValue := by
  cases k <;> rfl

@[simp] lemma Key.ofValue?_rename : Key.ofValue? (v.rename f) = Key.ofValue? v := by
  cases v <;> rfl

@[simp] lemma Key.ofValue_rename : Key.ofValue (v.rename f) = Key.ofValue v := by
  cases v <;> rfl

@[simp] lemma Operation.rename_orderValue (o : Option Ordering) :
    (Operation.orderValue o).rename f = Operation.orderValue o := by
  rcases o with _ | _ | _ | _ <;> rfl

namespace Arith

lemma neg_rename : neg (v.rename f) = Value.rename f <$> neg v := by cases v <;> rfl

lemma abs_rename : abs (v.rename f) = Value.rename f <$> abs v := by cases v <;> rfl

@[simp] lemma real_rename (op : Operation) : real op (v.rename f) = real op v := by
  simp only [real, Value.number?_rename, Value.kind_rename]

end Arith

end

namespace Entries

variable {α β : Type} (g : α → β)

/-- What is found under a key is changed with the entries. -/
lemma find?_mapValues (k : Key) (es : Entries α) :
    (es.mapValues g).find? k = (es.find? k).map g := by
  induction es with
  | nil => rfl
  | cons e es ih =>
    obtain ⟨l, a⟩ := e
    simp only [mapValues_cons, find?, ih]
    split_ifs <;> rfl

lemma insert_mapValues (k : Key) (a : α) (es : Entries α) :
    (es.mapValues g).insert k (g a) = (es.insert k a).mapValues g := by
  induction es with
  | nil => rfl
  | cons e es ih =>
    obtain ⟨l, b⟩ := e
    simp only [mapValues_cons, insert, ih]
    cases k.compare l <;> rfl

end Entries

namespace Store.Embeds

variable {s t : Store} {f : Ref → Ref} (h : s.Embeds t f)

include h

/-! ### Texts, lengths and elements -/

/-- A text does not depend on addresses. -/
lemma repr [FloatPrinter] (v : Value) : (v.rename f).repr t = v.repr s :=
  Value.repr_eq_of_view_eq (h.view v)

lemma display [FloatPrinter] (v : Value) : (v.rename f).display t = v.display s := by
  by_cases hv : v.kind = .str
  · cases v with
    | str u => rfl
    | _ => cases hv
  · rw [Value.display_eq_repr s hv, Value.display_eq_repr t (by rwa [Value.kind_rename]), h.repr]

lemma toText [FloatPrinter] (v : Value) : (v.rename f).toText t = v.toText s := by
  by_cases hv : v.kind = .nil
  · cases v with
    | nil => rfl
    | _ => cases hv
  · rw [Value.toText_eq_display s hv, Value.toText_eq_display t (by rwa [Value.kind_rename]),
      h.display]

lemma lineOf [FloatPrinter] (vs : List Value) :
    lineOf t (vs.map (Value.rename f)) = lineOf s vs := by
  simp [Dynval.lineOf, Function.comp_def, h.display]

lemma operand [FloatPrinter] (v : Value) :
    Operand.ofValue t (v.rename f) = Operand.ofValue s v := by
  rw [Operand.ofValue, Operand.ofValue, h.repr, Value.kind_rename]

lemma byteData? (v : Value) : (v.rename f).byteData? t = v.byteData? s := by
  cases v with
  | byteArray r => exact congrArg some (h.data r)
  | _ => rfl

lemma truthy (v : Value) : (v.rename f).truthy t = v.truthy s := by
  cases v with
  | list r => simp [Value.truthy, h.items]
  | map r =>
    simp only [Value.rename_map, Value.truthy, h.entries]
    cases s.entries r <;> rfl
  | byteArray r => simp [Value.truthy, h.data]
  | _ => rfl

lemma sequenceLength? (v : Value) : (v.rename f).sequenceLength? t = v.sequenceLength? s := by
  cases v with
  | list r => simp [Value.sequenceLength?, h.items]
  | byteArray r => simp [Value.sequenceLength?, h.data]
  | _ => rfl

lemma length (v : Value) : (v.rename f).length t = v.length s := by
  cases v with
  | map r => simp [Value.length, h.entries]
  | _ => simp [Value.length, Value.sequenceLength?, Value.kind, h.items, h.data]

lemma element? (index : Int64) (v : Value) :
    (v.rename f).element? t index = (v.element? s index).map (Value.rename f) := by
  cases v with
  | list r => simp [Value.element?, h.items, Option.map_bind]
  | map r => simp [Value.element?, h.entries, Entries.find?_mapValues]
  | byteArray r =>
    simp only [Value.rename_byteArray, Value.element?, h.data, Option.bind_eq_bind, Option.map_bind,
      Function.comp_def]
    rfl
  | str u | bytes data =>
    simp only [Value.rename_str, Value.rename_bytes, Value.element?, Option.bind_eq_bind,
      Option.map_bind, Function.comp_def]
    rfl
  | _ => rfl

lemma items? (v : Value) :
    (v.rename f).items? t = (v.items? s).map (List.map (Value.rename f)) := by
  cases v <;>
    simp [Value.items?, h.items, h.entries, h.data]

/-! ### Equality -/

/-- Renamed values are identical exactly when the values are. -/
lemma sameObject (a b : Value) : (a.rename f).sameObject (b.rename f) = a.sameObject b := by
  rw [Bool.eq_iff_iff, Value.sameObject_iff, Value.sameObject_iff,
    (Value.rename_injective h.injective).eq_iff]

lemma facet (v : Value) : (v.rename f).facet t = v.facet s := by
  cases v with
  | byteArray r => exact congrArg Facet.bytes (h.data r)
  | _ => rfl

lemma equalsFlat (a b : Value) : (a.rename f).equalsFlat t (b.rename f) = a.equalsFlat s b := by
  rw [Bool.eq_iff_iff, Value.equalsFlat_iff, Value.equalsFlat_iff, h.facet, h.facet]

lemma mem_pairs {x y : Ref} {path : List (Ref × Ref)} :
    (f x, f y) ∈ path.map (Prod.map f f) ↔ (x, y) ∈ path := by
  rw [← Prod.map_apply, List.mem_map_of_injective (h.injective.prodMap h.injective)]

lemma mem_containerPairs {a b : Value} {path : List (Value × Value)} :
    (a.rename f, b.rename f) ∈ path.map (Prod.map (Value.rename f) (Value.rename f)) ↔
      (a, b) ∈ path := by
  have hinj := Value.rename_injective h.injective
  rw [← Prod.map_apply, List.mem_map_of_injective (hinj.prodMap hinj)]

lemma equalBelow_iff {path : List (Value × Value)} {a b : Value}
    (hab : (a.rename f).equalsBelow t (path.map (Prod.map (Value.rename f) (Value.rename f)))
      (b.rename f) ↔ a.equalsBelow s path b) :
    Value.EqualBelow t (path.map (Prod.map (Value.rename f) (Value.rename f))) (a.rename f)
      (b.rename f) ↔ Value.EqualBelow s path a b :=
  or_congr (Value.rename_injective h.injective).eq_iff hab

/-- Equality does not depend on addresses, nor does the path of what is being compared. -/
lemma equalsBelow (path : List (Value × Value)) (a b : Value) :
    (a.rename f).equalsBelow t (path.map (Prod.map (Value.rename f) (Value.rename f)))
      (b.rename f) = a.equalsBelow s path b := by
  rw [Bool.eq_iff_iff]
  induction path, a, b using Value.equalsBelow.induct s with
  | case1 path x y ih =>
    rw [Value.rename_list, Value.rename_list, Value.equalsBelow_list_iff,
      Value.equalsBelow_list_iff, h.injective.eq_iff, ← Value.rename_list, ← Value.rename_list,
      h.mem_containerPairs, h.items, h.items,
      List.forall₂_map_left_iff, List.forall₂_map_right_iff]
    refine or_congr_right (and_congr_right fun hmem => forall₂_congr_of_mem_zip fun p hp => ?_)
    exact h.equalBelow_iff (ih hmem p hp)
  | case2 path x y ih =>
    rw [Value.rename_map, Value.rename_map, Value.equalsBelow_map_iff,
      Value.equalsBelow_map_iff, h.injective.eq_iff, ← Value.rename_map, ← Value.rename_map,
      h.mem_containerPairs, h.entries, h.entries,
      Entries.mapValues, Entries.mapValues, List.forall₂_map_left_iff, List.forall₂_map_right_iff]
    refine or_congr_right (and_congr_right fun hmem => forall₂_congr_of_mem_zip fun p hp => ?_)
    exact and_congr_right fun _ => h.equalBelow_iff (ih hmem p hp)
  | case3 path a b hlists hmaps =>
    rw [Value.equalsBelow, Value.equalsBelow, h.equalsFlat]
    · exact hlists
    · exact hmaps
    · exact Value.not_lists_rename f hlists
    · intro x y hx hy
      obtain ⟨x, rfl⟩ := Value.exists_of_rename_eq_map f a hx
      obtain ⟨y, rfl⟩ := Value.exists_of_rename_eq_map f b hy
      exact hmaps x y rfl rfl

lemma equals (a b : Value) : (a.rename f).equals t (b.rename f) = a.equals s b :=
  h.equalsBelow [] a b

lemma isOrEquals (a b : Value) : (a.rename f).isOrEquals t (b.rename f) = a.isOrEquals s b := by
  rw [Value.isOrEquals, Value.isOrEquals, h.sameObject, h.equals]

/-! ### Arithmetic -/

lemma operands [FloatPrinter] (op : Operation) (a b : Value) :
    Arith.operands op t (a.rename f) (b.rename f) = Arith.operands op s a b := by
  simp only [Arith.operands, Value.number?_rename, h.operand]

lemma divisionOperands [FloatPrinter] (op : Operation) (a b : Value) :
    Arith.divisionOperands op t (a.rename f) (b.rename f) = Arith.divisionOperands op s a b := by
  simp only [Arith.divisionOperands, h.operands, h.operand]

lemma floordiv [FloatPrinter] (a b : Value) :
    Arith.floordiv t (a.rename f) (b.rename f) = Value.rename f <$> Arith.floordiv s a b := by
  simp [Arith.floordiv, h.divisionOperands]

lemma mod [FloatPrinter] (a b : Value) :
    Arith.mod t (a.rename f) (b.rename f) = Value.rename f <$> Arith.mod s a b := by
  simp [Arith.mod, h.divisionOperands]

lemma truediv [FloatPrinter] (a b : Value) :
    Arith.truediv t (a.rename f) (b.rename f) = Value.rename f <$> Arith.truediv s a b := by
  simp [Arith.truediv, h.divisionOperands]

lemma sub [FloatPrinter] (a b : Value) :
    Arith.sub t (a.rename f) (b.rename f) = Value.rename f <$> Arith.sub s a b := by
  simp [Arith.sub, h.operands]

/-! ### Order -/

lemma compareFlat [FloatPrinter] (a b : Value) :
    (a.rename f).compareFlat t (b.rename f) = a.compareFlat s b := by
  by_cases htexts : ∀ x y, a = .str x → b = .str y → False
  · rw [Value.compareFlat, Value.compareFlat, h.byteData?, h.byteData?, h.operands]
    · exact htexts
    · simpa using htexts
  · push Not at htexts
    obtain ⟨x, y, rfl, rfl, -⟩ := htexts
    rfl

/-- The order does not depend on addresses. -/
lemma compareBelow [FloatPrinter] (path : List (Ref × Ref)) (a b : Value) :
    (a.rename f).compareBelow t (path.map (Prod.map f f)) (b.rename f) =
      a.compareBelow s path b := by
  have hfind : ∀ x y, ((t.items (f x)).zip (t.items (f y))).find? (fun p => !p.1.equals t p.2) =
      (((s.items x).zip (s.items y)).find? fun p => !p.1.equals s p.2).map
        (Prod.map (Value.rename f) (Value.rename f)) := by
    intro x y
    simp only [h.items, List.zip_map, List.find?_map, Function.comp_def, Prod.map_fst,
      Prod.map_snd, h.equals]
  induction path, a, b using Value.compareBelow.induct s with
  | case1 path x y hmem =>
    rw [Value.rename_list, Value.rename_list, Value.compareBelow_list, Value.compareBelow_list,
      if_pos hmem, if_pos (h.mem_pairs.2 hmem)]
  | case2 path x y hmem p hp ih =>
    rw [Value.rename_list, Value.rename_list, Value.compareBelow_list, Value.compareBelow_list,
      if_neg hmem, if_neg (mt h.mem_pairs.1 hmem), hfind, hp]
    exact ih
  | case3 path x y hmem hp =>
    rw [Value.rename_list, Value.rename_list, Value.compareBelow_list, Value.compareBelow_list,
      if_neg hmem, if_neg (mt h.mem_pairs.1 hmem), hfind, hp, h.items, h.items, List.length_map,
      List.length_map]
    rfl
  | case4 path a b hlists =>
    rw [Value.compareBelow, Value.compareBelow, h.compareFlat]
    · exact hlists
    · exact Value.not_lists_rename f hlists

lemma compare [FloatPrinter] (a b : Value) : (a.rename f).compare t (b.rename f) = a.compare s b :=
  h.compareBelow [] a b

lemma prefer [FloatPrinter] (o : Ordering) (a b : Value) :
    Value.prefer o t (a.rename f) (b.rename f) = Value.rename f <$> Value.prefer o s a b := by
  simp [Value.prefer, h.compare, apply_ite (Value.rename f)]

/-! ### Membership -/

lemma bytesContain [FloatPrinter] (data : List UInt8) (item : Value) :
    Value.bytesContain t data (item.rename f) = Value.bytesContain s data item := by
  simp only [Value.bytesContain, Value.integer?_rename, Value.kind_rename, h.byteData?, h.operand]

/-- Membership does not depend on addresses. -/
lemma contains [FloatPrinter] (container item : Value) :
    (container.rename f).contains t (item.rename f) = container.contains s item := by
  cases container with
  | str u => cases item <;> rfl
  | list r => simp [Value.contains, h.items, Function.comp_def, h.isOrEquals]
  | map r => simp [Value.contains, h.entries, Entries.find?_mapValues]
  | bytes data => exact h.bytesContain data item
  | byteArray r =>
    rw [Value.rename_byteArray, Value.contains, Value.contains, h.data]
    exact h.bytesContain (s.data r) item
  | _ => rfl

/-! ### Functions on numbers -/

lemma applyReal [FloatPrinter] (op : Operation) (g : Binary64 → Binary64) (v : Value) :
    Arith.applyReal op g t (v.rename f) = Value.rename f <$> Arith.applyReal op g s v := by
  simp only [Arith.applyReal, Arith.real_rename, h.operand]
  cases Arith.real op v with
  | error e => rfl
  | ok x =>
    simp only [bind, Except.bind]
    split_ifs <;> rfl

lemma floor [FloatPrinter] (v : Value) :
    Arith.floor t (v.rename f) = Value.rename f <$> Arith.floor s v := by
  by_cases hint : ∀ i, v = .int i → False
  · rw [Arith.floor, Arith.floor, Arith.real_rename, h.operand]
    · cases Arith.real .floor v with
      | error e => rfl
      | ok x =>
        simp only [bind, Except.bind]
        split_ifs
        · rfl
        · split <;> rfl
    · exact hint
    · simpa using hint
  · push Not at hint
    obtain ⟨i, rfl, -⟩ := hint
    rfl

end Store.Embeds

end Dynval
