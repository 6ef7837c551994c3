import Dynval.Proofs.Key.Entries
import Dynval.Proofs.Store.Copy
import Dynval.Proofs.Subscript.Policy

/-!
# What operations change

Every operation but writing by subscript only adds containers. A write by subscript that is refused
or dropped leaves the store as it is, and one that is done replaces the one element that the
subscript addresses.
-/

namespace Dynval

variable {ε : Type}

/-! ### Operations that only add containers -/

section Growth

variable {R : Store → Store → Prop} [Store.Growth R]

@[simp] lemma Value.respects_asInt (v : Value) : (v.asInt : Action ε Int64).Respects R := by
  simp [asInt]

@[simp] lemma Value.respects_asFloat (v : Value) : (v.asFloat : Action ε Binary64).Respects R := by
  simp [asFloat]

namespace Subscript

@[simp] lemma respects_get (container : Value) (index : Int64) :
    (get container index : Action ε Value).Respects R := by
  refine Action.respects_bind (by simp) fun found => ?_
  cases found <;> simp

@[simp] lemma respects_getWith (policy : Policy) (container : Value) (index : Int64) :
    (getWith policy container index).Respects R := by
  cases policy <;> simp [getWith, getStrict]

@[simp] lemma respects_getItemWith [FloatPrinter] (policy : Policy) (container key : Value) :
    (getItemWith policy container key).Respects R := by
  cases policy <;> cases container <;> cases h : key.integer? <;>
    simp [getItemWith, getItem, getItemStrict, getStrict, h]

/-- A slice only adds a container. -/
@[simp] lemma respects_slice (container : Value) (lo hi : Option Int64) :
    (slice container lo hi : Action ε Value).Respects R := by
  refine Action.respects_bind (by simp) fun length => ?_
  cases length with
  | none => simp
  | some n => cases container <;> simp

end Subscript

namespace Sequence

/-- A copy is allowed by every relation that allows copying. -/
@[simp] lemma respects_independentCopy (v : Value) :
    (independentCopy v : Action ε Value).Respects R := by
  unfold independentCopy
  split
  · exact fun s => Store.Growth.deepCopy s v
  · simp

/-- Repetition only copies. -/
@[simp] lemma respects_repeatItems [Allocator] (op : Operation) (items : List Value) (count : Nat) :
    (repeatItems op items count).Respects R := by
  cases items <;> simp [repeatItems]

@[simp] lemma respects_listRepeat [Allocator] (v : Value) (count : Int64) :
    (listRepeat v count).Respects R := by
  simp [listRepeat]

@[simp] lemma respects_items (v : Value) : (items v : Action ε (List Value)).Respects R := by
  refine Action.respects_bind (by simp) fun found => ?_
  cases found <;> simp

@[simp] lemma respects_enumerate (v : Value) :
    (enumerate v : Action ε (List (Nat × Value))).Respects R := by
  simp [enumerate]

/-- Turning a value into bytes changes nothing. -/
@[simp] lemma respects_bytesFrom [Allocator] (op : Operation) (v : Value) :
    (bytesFrom op v).Respects R := by
  cases v with
  | list r =>
    refine Action.respects_bind (by simp) fun items => ?_
    exact Action.respects_mapM (fun item => by simp) items
  | _ => simp [bytesFrom, Value.integer?]

end Sequence

namespace Arith

/-- Joining two sequences only adds a container. -/
@[simp] lemma respects_add [FloatPrinter] (a b : Value) : (add a b).Respects R := by
  unfold add
  split
  · simp
  · simp
  · refine Action.respects_bind (by simp) fun joined => ?_
    cases joined with
    | none => simp
    | some data => split_ifs <;> simp

@[simp] lemma respects_repeatSequence [Allocator] (v : Value) (count : Nat) :
    (repeatSequence v count).Respects R := by
  cases v <;> simp [repeatSequence]

/-- Repeating a sequence only adds containers. -/
@[simp] lemma respects_mul [Platform] (a b : Value) : (mul a b).Respects R := by
  have hrepeated (x y : Value) : (mul.repeated a b x y).Respects R := by
    unfold mul.repeated
    split <;> simp
  unfold mul
  split_ifs <;> simp [hrepeated]

end Arith

namespace Operation

@[simp] lemma respects_bound (v : Value) : (bound v).Respects R := by
  cases v <;> simp [bound]

@[simp] lemma respects_pickFrom (op : Operation) (pick : Store → Value → Value → Except Fault Value)
    (args : List Value) : (pickFrom op pick args).Respects R := by
  unfold pickFrom
  split
  · refine Action.respects_bind (by simp) fun candidates => ?_
    cases candidates <;> simp
  · cases args <;> simp

/-- No operation but writing by subscript does more than to add lists and byte arrays and to
copy. -/
lemma respects_apply [Platform] {op : Operation} (hop : op ≠ setIndex) (args : List Value)
    (policy : Policy) : (op.apply args policy).Respects R := by
  cases op with
  | setIndex => simp at hop
  | bytearray =>
    simp only [apply]
    split <;> simp [Sequence.zeroByteArray, Sequence.byteArrayFrom]
  | bytes => simp [apply, Sequence.byteStringFrom]
  | range =>
    refine Action.respects_bind (Action.respects_mapM Value.respects_asInt args) fun bounds => ?_
    simp
  | enumerate =>
    refine Action.respects_bind (by simp) fun pairs => ?_
    exact Action.respects_bind (Action.respects_mapM (fun _ => by simp) pairs) fun rows => by simp
  | _ => simp [apply]

end Operation

end Growth

/-- A deep copy leaves all old containers as they are. -/
lemma Store.extends_deepCopy (s : Store) (v : Value) : s.Extends (s.deepCopy v).2 := by
  obtain ⟨-, hsound, -⟩ := (Copying.copy_spec s).1 ⟨s, []⟩ v [] (Copying.Sound.start s)
  exact ⟨hsound.size, hsound.cell?⟩

instance : Store.Growth Store.Extends where
  refl := Store.Extends.refl
  trans := Store.Extends.trans
  list s items := Store.Extends.alloc s (.list items)
  byteArray s data := Store.Extends.alloc s (.byteArray data)
  deepCopy := Store.extends_deepCopy

/-- Every operation but writing by subscript only adds containers. -/
lemma Operation.onlyAdds_apply [Platform] {op : Operation} (hop : op ≠ setIndex) (args : List Value)
    (policy : Policy) : (op.apply args policy).Respects Store.Extends :=
  respects_apply hop args policy

/-! ### Writing by subscript -/

/-- Whether two sequences differ at most in the element that a subscript denotes. -/
def SameExceptAt {α : Type} (index : Int64) (xs ys : List α) : Prop :=
  ys.length = xs.length ∧ ∀ i, position? index xs.length ≠ some i → ys[i]? = xs[i]?

/-- Replacing the element that a subscript denotes changes no other. -/
lemma sameExceptAt_set {α : Type} {index : Int64} {xs : List α} {p : Nat}
    (hp : position? index xs.length = some p) (a : α) : SameExceptAt index xs (xs.set p a) := by
  refine ⟨List.length_set, fun i hi => ?_⟩
  refine List.getElem?_set_ne ?_
  rintro rfl
  exact hi hp

/-- Whether the contents of two containers of one kind differ at most in what a subscript addresses:
an element of a list, a byte of a byte array, the entry of an integer in a map, whose keys stay in
increasing order. -/
def Cell.SameExceptAt (index : Int64) : Cell → Cell → Prop
  | .list xs, .list ys => Dynval.SameExceptAt index xs ys
  | .byteArray xs, .byteArray ys => Dynval.SameExceptAt index xs ys
  | .map es, .map fs =>
    (fs.filter fun e => e.1 ≠ .int index) = (es.filter fun e => e.1 ≠ .int index) ∧
      (Entries.Increasing es → Entries.Increasing fs)
  | _, _ => False

namespace Subscript

/-- A write leaves the store as it is or replaces what the subscript addresses. -/
lemma set_cases (container : Value) (index : Int64) (v : Value) (s : Store) :
    ((set container index v : Action ε Unit) s).store = s ∨
      ∃ r c d, container.ref? = some r ∧ s.cell? r = some c ∧
        ((set container index v : Action ε Unit) s).store = s.put r d ∧
        c.SameExceptAt index d := by
  cases container with
  | list r =>
    cases hp : position? index (s.items r).length with
    | none => simp [set, dropWrite, hp]
    | some p =>
      have hset : ((set (.list r) index v : Action ε Unit) s).store =
          s.setItems r ((s.items r).set p v) := by
        simp [set, hp, Store.setItem]
      rw [hset]
      refine (s.setItems_cases r _).imp_right ?_
      rintro ⟨hcell, hput⟩
      exact ⟨r, _, _, rfl, hcell, hput, sameExceptAt_set hp v⟩
  | byteArray r =>
    cases hp : position? index (s.data r).length with
    | none => simp [set, dropWrite, hp]
    | some p =>
      have hset : ((set (.byteArray r) index v : Action ε Unit) s).store =
          s.setData r ((s.data r).set p (byteOf v.toInt)) := by
        simp [set, hp, Store.setByte, Value.asInt, Action.bind_apply]
      rw [hset]
      refine (s.setData_cases r _).imp_right ?_
      rintro ⟨hcell, hput⟩
      exact ⟨r, _, _, rfl, hcell, hput, sameExceptAt_set hp _⟩
  | map r =>
    refine (s.setEntries_cases r _).imp_right ?_
    rintro ⟨hcell, hput⟩
    refine ⟨r, _, _, rfl, hcell, hput, Entries.filter_insert _ _ _, fun hes => ?_⟩
    exact hes.insert _ _
  | _ => exact Or.inl rfl

/-- Under either policy, a write leaves the store as it is, or succeeds and replaces what the
subscript addresses. -/
lemma setWith_cases [FloatPrinter] (policy : Policy) (container : Value) (index : Int64) (v : Value)
    (s : Store) :
    (setWith policy container index v s).store = s ∨
      (setWith policy container index v s).result = .ok () ∧
      ∃ r c d, container.ref? = some r ∧ s.cell? r = some c ∧
        (setWith policy container index v s).store = s.put r d ∧ c.SameExceptAt index d := by
  obtain ⟨u, hu⟩ := set_succeeds (ε := Fault) container index v s
  have hset := (set_cases (ε := Fault) container index v s).imp_right fun h => And.intro hu h
  cases policy with
  | lenient => exact hset
  | strict =>
    obtain ⟨f, hf⟩ | hsame := setStrict_cases container index v s
    · exact Or.inl (congrArg Outcome.store hf)
    · rw [hsame] at hset
      exact hset

end Subscript

namespace Operation

/-- Writing by subscript converts the subscript, writes, and answers the container. -/
lemma apply_setIndex [Platform] (args : List Value) (policy : Policy) (s : Store) :
    let a := args.getD 0 .nil
    let b := args.getD 1 .nil
    let o := Subscript.setWith policy a b.toInt (args.getD 2 .nil) s
    setIndex.apply args policy s =
      ⟨o.result.map fun _ => a, o.store, b.toIntEvents ++ o.events⟩ := by
  intro a b o
  have hasInt := b.asInt_apply (ε := Fault) s
  change (b.asInt >>= fun i => Subscript.setWith policy a i (args.getD 2 .nil) >>= fun _ =>
    pure a) s = _
  rw [Action.bind_of_ok (a := b.toInt) (by rw [hasInt]), hasInt]
  simp [o]

/-- A call changes no container that is there, except that writing by subscript may change the
container that is its first argument, and then only in what the second argument addresses. A call
that fails changes no container at all. -/
theorem apply_changes_only_subscript [Platform] (op : Operation) (args : List Value)
    (policy : Policy) (s : Store) :
    let o := op.apply args policy s
    (∀ r : Ref, r.index < s.size → o.store.cell? r = s.cell? r ∨
      op = setIndex ∧ (args.getD 0 .nil).ref? = some r ∧
        ∃ c d, s.cell? r = some c ∧ o.store.cell? r = some d ∧
          c.SameExceptAt (args.getD 1 .nil).toInt d) ∧
    (∀ f, o.result = .error f → ∀ r : Ref, r.index < s.size → o.store.cell? r = s.cell? r) := by
  intro o
  by_cases hop : op = setIndex
  · subst hop
    obtain hsame | ⟨hok, q, c, d, hq, hc, hput, hcd⟩ := Subscript.setWith_cases policy
      (args.getD 0 .nil) (args.getD 1 .nil).toInt (args.getD 2 .nil) s
    · have hstore : o.store = s := by
        rw [← hsame]
        simp only [o, apply_setIndex]
      simp [hstore]
    · have hstore : o.store = s.put q d := by
        rw [← hput]
        simp only [o, apply_setIndex]
      refine ⟨fun r hr => ?_, fun f hf => ?_⟩
      · by_cases hrq : r = q
        · subst hrq
          refine Or.inr ⟨rfl, hq, c, d, hc, ?_, hcd⟩
          rw [hstore, Store.cell?_put_self d hr]
        · exact Or.inl (by rw [hstore, Store.cell?_put_of_ne d hrq])
      · simp only [o, apply_setIndex, hok, Except.map, reduceCtorEq] at hf
  · have hext := onlyAdds_apply hop args policy s
    exact ⟨fun r hr => Or.inl (hext.cell? r hr), fun _ _ => hext.cell?⟩

end Operation

end Dynval
