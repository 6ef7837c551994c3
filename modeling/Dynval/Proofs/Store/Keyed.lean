import Dynval.Proofs.Container.Map
import Dynval.Proofs.Literal.Eval
import Dynval.Proofs.Operation.Frame

/-!
# The keys of maps

In every store that operations, methods, copies and literals make out of the empty one, the keys of
each map are in increasing order and are keys of values: no map holds two keys for one number.
-/

namespace Dynval

lemma Entries.keys_zip_sublist {α : Type} (ks : List Key) (as : List α) :
    (keys (ks.zip as)).Sublist ks := by
  induction ks generalizing as with
  | nil => simp [keys]
  | cons k ks ih =>
    cases as with
    | nil => simp [keys]
    | cons a as => exact (ih as).cons_cons k

/-- Whether the contents of a container are well keyed, if it is a map. -/
def Cell.WellKeyed : Cell → Prop
  | .map es => MapChange.WellKeyed es
  | _ => True

/-- Other values in the places of those that a container holds leave it well keyed. -/
lemma Cell.WellKeyed.withChildren {c : Cell} (hc : c.WellKeyed) (children : List Value) :
    (c.withChildren children).WellKeyed := by
  cases c with
  | map es =>
    exact MapChange.WellKeyed.of_keys_sublist hc (Entries.keys_zip_sublist es.keys children)
  | _ => trivial

/-- Whether every map of a store is well keyed. -/
def Store.Keyed (s : Store) : Prop :=
  ∀ r c, s.cell? r = some c → c.WellKeyed

namespace Store.Keyed

variable {s : Store}

lemma empty : Store.empty.Keyed := by
  intro r c h
  simp [Store.empty, cell?] at h

lemma entries (hs : s.Keyed) (r : Ref) : MapChange.WellKeyed (s.entries r) := by
  unfold Store.entries
  split
  · rename_i es h
    exact hs r _ h
  · exact .nil

lemma contents (hs : s.Keyed) (r : Ref) : (s.contents r).WellKeyed := by
  unfold Store.contents
  cases h : s.cell? r with
  | none => trivial
  | some c => exact hs r c h

/-- A new container with well-keyed contents keeps a store keyed. -/
lemma alloc (hs : s.Keyed) {c : Cell} (hc : c.WellKeyed) : (s.alloc c).2.Keyed := by
  intro r d h
  have hlt := index_lt_of_cell? h
  rw [size_alloc] at hlt
  by_cases hr : r.index < s.size
  · rw [cell?_alloc_of_lt c hr] at h
    exact hs r d h
  · obtain ⟨i⟩ := r
    obtain rfl : i = s.size := Nat.eq_of_lt_succ_of_not_lt hlt hr
    rw [cell?_alloc_self] at h
    cases h
    exact hc

/-- Well-keyed contents keep a store keyed. -/
lemma put (hs : s.Keyed) {c : Cell} (hc : c.WellKeyed) (r : Ref) : (s.put r c).Keyed := by
  intro q d h
  have hlt := index_lt_of_cell? h
  rw [size_put] at hlt
  by_cases hq : q = r
  · subst hq
    rw [cell?_put_self c hlt] at h
    cases h
    exact hc
  · rw [cell?_put_of_ne c hq] at h
    exact hs q d h

/-! ### Methods -/

lemma setItems (hs : s.Keyed) (r : Ref) (items : List Value) : (s.setItems r items).Keyed := by
  obtain h | ⟨-, h⟩ := s.setItems_cases r items
  · rwa [h]
  · rw [h]
    exact hs.put (c := .list items) trivial r

lemma setData (hs : s.Keyed) (r : Ref) (data : List UInt8) : (s.setData r data).Keyed := by
  obtain h | ⟨-, h⟩ := s.setData_cases r data
  · rwa [h]
  · rw [h]
    exact hs.put (c := .byteArray data) trivial r

lemma setEntries (hs : s.Keyed) (r : Ref) {es : Entries Value} (hes : MapChange.WellKeyed es) :
    (s.setEntries r es).Keyed := by
  obtain h | ⟨-, h⟩ := s.setEntries_cases r es
  · rwa [h]
  · rw [h]
    exact hs.put (c := .map es) hes r

/-- Every change of a map keeps a store keyed. -/
lemma changeMap [FloatPrinter] (hs : s.Keyed) (r : Ref) (c : MapChange) : (c.run r s).Keyed := by
  cases hkey : Key.ofValue? c.key with
  | none => rwa [MapChange.run_of_ofValue?_eq_none hkey]
  | some k =>
    rw [MapChange.run_of_ofValue? hkey]
    exact hs.setEntries r ((hs.entries r).entriesAfter c)

/-! ### Copies -/

lemma copy (hs : s.Keyed) :
    (∀ c v, c.store.Keyed → (s.copyValue c v).1.2.store.Keyed) ∧
    (∀ c vs, c.store.Keyed → (s.copyValues c vs).1.2.store.Keyed) := by
  apply Store.copyValue.mutual_induct
  · intro c v hv hc
    rw [Copying.copyValue_leaf hv]
    cases v with
    | byteArray r => exact hc.alloc trivial
    | _ => exact hc
  · intro c v r hv copy hr hc
    rw [Copying.copyValue_met hv hr]
    exact hc
  · intro c v r hv hr ih hc
    have hr' := hs.contents r
    rw [Copying.copyValue_new hv hr]
    exact (ih (hc.alloc (hr'.withChildren []))).put (hr'.withChildren _) _
  · intro c hc
    rw [Store.copyValues]
    exact hc
  · intro c v rest first ih₁ ih₂ _ hc
    rw [Store.copyValues]
    exact ih₂ (ih₁ hc)

/-- A deep copy keeps the keys of maps, and so keeps a store keyed. -/
lemma deepCopy (hs : s.Keyed) (v : Value) : (s.deepCopy v).2.Keyed :=
  hs.copy.1 ⟨s, []⟩ v hs

end Store.Keyed

instance : Store.Growth fun s t => s.Keyed → t.Keyed where
  refl _ := id
  trans h h' hs := h' (h hs)
  list _ _ hs := hs.alloc trivial
  byteArray _ _ hs := hs.alloc trivial
  deepCopy _ v hs := hs.deepCopy v

/-- Whether every map that is well keyed before an action is so after it. -/
abbrev Action.KeepsKeyed {ε α : Type} (x : Action ε α) : Prop :=
  x.Respects fun s t => s.Keyed → t.Keyed

/-! ### Operations -/

/-- A write by subscript adds at most the key of the subscript. -/
lemma Cell.SameExceptAt.wellKeyed {index : Int64} {c d : Cell} (h : c.SameExceptAt index d)
    (hc : c.WellKeyed) : d.WellKeyed := by
  cases c <;> cases d <;> try trivial
  rename_i es fs
  obtain ⟨hrest, hincreasing⟩ := h
  refine ⟨hincreasing hc.increasing, fun k hk => ?_⟩
  by_cases hindex : k = .int index
  · rw [hindex]
    rfl
  · obtain ⟨e, he, rfl⟩ := List.mem_map.1 hk
    have hmem : e ∈ es.filter fun e => e.1 ≠ .int index := by
      rw [← hrest]
      exact List.mem_filter.2 ⟨he, decide_eq_true hindex⟩
    exact hc.canonical _ (List.mem_map_of_mem (List.mem_of_mem_filter hmem))

/-- No operation spoils the keys of a map. -/
lemma Operation.keepsKeyed_apply [Platform] (op : Operation) (args : List Value) (policy : Policy) :
    (op.apply args policy).KeepsKeyed := by
  by_cases hop : op = setIndex
  · subst hop
    intro s hs
    rw [apply_setIndex]
    obtain h | ⟨-, r, c, d, -, hc, h, hcd⟩ := Subscript.setWith_cases policy (args.getD 0 .nil)
      (args.getD 1 .nil).toInt (args.getD 2 .nil) s
    · rwa [h]
    · rw [h]
      exact hs.put (hcd.wellKeyed (hs r c hc)) r
  · exact respects_apply hop args policy

/-! ### Literals -/

lemma keepsKeyed_newMap {ε : Type} {es : Entries Value} (hes : MapChange.WellKeyed es) :
    (newMap es : Action ε Value).KeepsKeyed :=
  fun _ hs => hs.alloc hes

namespace Literal

/-- Whether an action keeps stores keyed and answers well-keyed entries. -/
def MakesKeyed {ε : Type} (x : Action ε (Entries Value)) : Prop :=
  x.KeepsKeyed ∧ ∀ s es, (x s).result = .ok es → MapChange.WellKeyed es

lemma MakesKeyed.newMap {ε : Type} {x : Action ε (Entries Value)} (hx : MakesKeyed x) :
    (x >>= newMap : Action ε Value).KeepsKeyed :=
  Action.respects_bind_of_ok hx.1 fun s es hes => keepsKeyed_newMap (hx.2 s es hes)

lemma MakesKeyed.bind {ε α : Type} {x : Action ε α} {f : α → Action ε (Entries Value)}
    (hx : x.KeepsKeyed) (hf : ∀ s a, (x s).result = .ok a → MakesKeyed (f a)) :
    MakesKeyed (x >>= f) := by
  refine ⟨Action.respects_bind_of_ok hx fun s a ha => (hf s a ha).1, fun s es hes => ?_⟩
  obtain ⟨a, ha, hes⟩ := Action.exists_of_bind_ok hes
  exact (hf s a ha).2 _ es hes

lemma MakesKeyed.pure {ε : Type} {es : Entries Value} (hes : MapChange.WellKeyed es) :
    MakesKeyed (pure es : Action ε (Entries Value)) := by
  refine ⟨by simp, fun s fs h => ?_⟩
  cases h
  exact hes

/-- No literal spoils the keys of a map, and the maps that it makes are well keyed. -/
lemma keepsKeyed_evals [Allocator] :
    (∀ v, (eval v).KeepsKeyed) ∧
    (∀ map entries, MapChange.WellKeyed map → MakesKeyed (evalEntries map entries)) ∧
    (∀ map pairs, MapChange.WellKeyed map → MakesKeyed (evalPairs map pairs)) ∧
    (∀ items, (evalItems items).KeepsKeyed) := by
  apply eval.mutual_induct
  -- scalars and arrays
  · intro s
    simp [eval]
  · intro i
    simp [eval]
  · intro x
    simp [eval]
  · intro b
    simp [eval]
  · intro text
    simp [eval]
  · intro items ih
    rw [eval]
    exact Action.respects_bind ih fun vs => by simp
  -- tables with one key, by its tag, and other tables
  · intro key payload htag
    rw [eval_tagged, htag]
    simp
  · intro key payload htag ih
    rw [eval_tagged, htag]
    refine Action.respects_bind ih fun v => Action.Respects.mapError ?_ _
    simp [Sequence.byteStringFrom]
  · intro key payload htag ih
    rw [eval_tagged, htag]
    refine Action.respects_bind ih fun v => Action.Respects.mapError ?_ _
    simp [Sequence.byteArrayFrom]
  · intro key htag pairs ih
    rw [eval_tagged, htag]
    exact (ih .nil).newMap
  · intro key payload htag hpairs
    rw [eval_tagged, htag]
    cases payload with
    | array pairs => exact absurd rfl (hpairs pairs)
    | _ => simp
  · intro key payload htag
    rw [eval_tagged, htag]
    simp
  · intro key payload htag ih
    rw [eval_tagged, htag]
    exact Action.respects_bind ih fun v => keepsKeyed_newMap (.insert .nil rfl v)
  · intro entries hentries ih
    rw [eval]
    · exact (ih .nil).newMap
    · exact hentries
  -- pairs: what is stored under is the key of a value
  · intro map hmap
    rw [evalPairs]
    exact .pure hmap
  · intro map key item rest ihkey ihitem ihrest hmap
    rw [evalPairs]
    refine .bind ihkey fun _ k _ => .bind (by simp) fun _ key hkey => .bind ihitem fun _ v _ => ?_
    have hk : Key.ofValue? k = some key := Key.ofValue_eq_ok_iff.1 (mapError_eq_ok_iff.1 hkey)
    exact ihrest key v (hmap.insert (Key.ofValue?_toValue hk) v)
  · intro map entry rest hentry hmap
    rw [evalPairs]
    · exact ⟨by simp, fun s es h => by cases h⟩
    · exact hentry
  -- items and entries
  · simp [evalItems]
  · intro item rest ihitem ihrest
    rw [evalItems]
    exact Action.respects_bind ihitem fun v => Action.respects_bind ihrest fun vs => by simp
  · intro map hmap
    rw [evalEntries]
    exact .pure hmap
  · intro map key item rest ihitem ihrest hmap
    rw [evalEntries]
    exact .bind ihitem fun _ v _ => ihrest v (hmap.insert rfl v)

end Literal

/-! ### Programs -/

/-- The stores that a program makes out of the empty one. -/
inductive Store.Made [Platform] : Store → Prop
  | empty : Made .empty
  | newList {s : Store} (hs : Made s) (items : List Value) : Made (s.alloc (.list items)).2
  | newMap {s : Store} (hs : Made s) : Made (s.alloc (.map [])).2
  | newByteArray {s : Store} (hs : Made s) (data : List UInt8) : Made (s.alloc (.byteArray data)).2
  | setItems {s : Store} (hs : Made s) (r : Ref) (items : List Value) : Made (s.setItems r items)
  | setData {s : Store} (hs : Made s) (r : Ref) (data : List UInt8) : Made (s.setData r data)
  | changeMap {s : Store} (hs : Made s) (r : Ref) (c : MapChange) : Made (c.run r s)
  | copy {s : Store} (hs : Made s) (v : Value) : Made (s.deepCopy v).2
  | apply {s : Store} (hs : Made s) (op : Operation) (args : List Value) (policy : Policy) :
    Made (op.apply args policy s).store
  | eval {s : Store} (hs : Made s) (literal : Toml) : Made (Literal.eval literal s).store

namespace Store.Made

variable {s : Store}

lemma runAll [Platform] (hs : s.Made) (r : Ref) (changes : List MapChange) :
    (MapChange.runAll r s changes).Made := by
  induction changes generalizing s with
  | nil => exact hs
  | cons c changes ih => exact ih (hs.changeMap r c)

/-- In every store that a program makes, all maps are well keyed. -/
lemma keyed [Platform] (hs : s.Made) : s.Keyed := by
  induction hs with
  | empty => exact .empty
  | newList _ items ih => exact ih.alloc trivial
  | newMap _ ih => exact ih.alloc MapChange.WellKeyed.nil
  | newByteArray _ data ih => exact ih.alloc trivial
  | setItems _ r items ih => exact ih.setItems r items
  | setData _ r data ih => exact ih.setData r data
  | changeMap _ r c ih => exact ih.changeMap r c
  | copy _ v ih => exact ih.deepCopy v
  | apply _ op args policy ih => exact op.keepsKeyed_apply args policy _ ih
  | eval _ literal ih => exact Literal.keepsKeyed_evals.1 literal _ ih

end Store.Made

end Dynval
