import Dynval.Platform
import Dynval.Proofs.Operation.Extremes
import Dynval.Proofs.Subscript.Policy
import Dynval.Proofs.Value.Order

/-!
# Faults name what raised them

Steps that several operations share take the operation as an argument, so that a fault names the
operation that was called. Three steps are primitives with a name of their own, which their faults
keep whoever takes them: hashing a key, reading by an integer subscript, and comparing two values.
`Operation.raiser` tells which calls hand the step that can fail to one of them; the faults of all
other calls name the operation.
-/

namespace Dynval

variable {α β : Type} {o : Origin}

/-! ### Results and actions whose faults have one origin -/

/-- Whether every fault of a result has the given origin. -/
def Origin.RaisesAll (o : Origin) (x : Except Fault α) : Prop :=
  ∀ f, x = .error f → f.origin = o

@[simp] lemma Fault.origin_of (op : Operation) (cause : Cause) :
    (Fault.of op cause).origin = .operation op := rfl

namespace Origin

variable {x : Except Fault α} {f : α → Except Fault β}

@[simp] lemma raisesAll_ok (a : α) : o.RaisesAll (.ok a : Except Fault α) := by
  simp [RaisesAll]

@[simp] lemma raisesAll_pure (a : α) : o.RaisesAll (pure a : Except Fault α) :=
  raisesAll_ok a

@[simp] lemma raisesAll_error_iff {f : Fault} :
    o.RaisesAll (.error f : Except Fault α) ↔ f.origin = o := by
  simp [RaisesAll]

/-- What two steps raise has the origin that both raise with. -/
@[simp] lemma raisesAll_bind (hx : o.RaisesAll x) (hf : ∀ a, o.RaisesAll (f a)) :
    o.RaisesAll (x >>= f) := by
  cases x with
  | error e => exact raisesAll_error_iff.2 (raisesAll_error_iff.1 hx)
  | ok a => exact hf a

@[simp] lemma raisesAll_map {h : α → β} (hx : o.RaisesAll x) : o.RaisesAll (h <$> x) := by
  rw [map_eq_pure_bind]
  exact raisesAll_bind hx fun a => raisesAll_pure (h a)

lemma raisesAll_foldlM {f : β → α → Except Fault β} (hf : ∀ b a, o.RaisesAll (f b a)) (b : β)
    (as : List α) : o.RaisesAll (as.foldlM f b) := by
  induction as generalizing b with
  | nil => exact raisesAll_pure b
  | cons a as ih =>
    rw [List.foldlM_cons]
    exact raisesAll_bind (hf b a) ih

end Origin

namespace Action

variable {x : Action Fault α} {f : α → Action Fault β}

/-- Whether every fault of an action has the given origin. -/
def RaisedBy (o : Origin) (x : Action Fault α) : Prop :=
  ∀ s, o.RaisesAll (x s).result

/-- An action that never fails raises with any origin. -/
lemma Succeeds.raisedBy (hx : x.Succeeds) : x.RaisedBy o := by
  intro s e he
  obtain ⟨a, ha⟩ := hx s
  rw [ha] at he
  cases he

@[simp] lemma raisedBy_pure (a : α) : (pure a : Action Fault α).RaisedBy o :=
  fun _ => Origin.raisesAll_ok a

@[simp] lemma raisedBy_fail_iff {f : Fault} :
    (fail f : Action Fault α).RaisedBy o ↔ f.origin = o := by
  simp [RaisedBy]

@[simp] lemma raisedBy_report (events : List Event) :
    (report events : Action Fault Unit).RaisedBy o :=
  (Succeeds.report events).raisedBy

@[simp] lemma raisedBy_query (f : Store → α) : (query f : Action Fault α).RaisedBy o :=
  (Succeeds.query f).raisedBy

@[simp] lemma raisedBy_modify (f : Store → Store) : (modify f : Action Fault Unit).RaisedBy o :=
  (Succeeds.modify f).raisedBy

@[simp] lemma raisedBy_check_iff {f : Store → Except Fault α} :
    (check f).RaisedBy o ↔ ∀ s, o.RaisesAll (f s) :=
  Iff.rfl

/-- What two actions in a row raise has the origin that both raise with. -/
@[simp] lemma raisedBy_bind (hx : x.RaisedBy o) (hf : ∀ a, (f a).RaisedBy o) :
    (x >>= f).RaisedBy o := by
  intro s e he
  obtain he | ⟨a, -, he⟩ := bind_error_iff.1 he
  · exact hx s e he
  · exact hf a _ e he

@[simp] lemma raisedBy_map {h : α → β} (hx : x.RaisedBy o) : (h <$> x).RaisedBy o := by
  rw [map_eq_pure_bind]
  exact raisedBy_bind hx fun a => raisedBy_pure (h a)

@[simp] lemma raisedBy_mapM {γ : Type} {f : γ → Action Fault α} (hf : ∀ c, (f c).RaisedBy o)
    (cs : List γ) : (cs.mapM f).RaisedBy o := by
  induction cs with
  | nil => simp
  | cons c cs ih => simp [hf, ih]

end Action

@[simp] lemma raisedBy_newList (items : List Value) :
    (newList items : Action Fault Value).RaisedBy o :=
  fun _ => Origin.raisesAll_ok _

@[simp] lemma raisedBy_newByteArray (data : List UInt8) :
    (newByteArray data : Action Fault Value).RaisedBy o :=
  fun _ => Origin.raisesAll_ok _

@[simp] lemma Value.raisedBy_asInt (v : Value) : (v.asInt : Action Fault Int64).RaisedBy o :=
  v.asInt_succeeds.raisedBy

@[simp] lemma Value.raisedBy_asFloat (v : Value) :
    (v.asFloat : Action Fault Binary64).RaisedBy o := by
  simp [asFloat]

/-! ### Steps that take the operation as an argument -/

namespace Sequence

/-- Missing room is raised by the operation that asks for it. -/
@[simp] lemma raisesAll_reserve [Allocator] (op : Operation) (slot : Slot) (elements : Nat) :
    (Origin.operation op).RaisesAll (reserve op slot elements) := by
  unfold reserve
  split_ifs <;> simp

@[simp] lemma raisesAll_repeatedLength (op : Operation) (unit count : Nat) :
    (Origin.operation op).RaisesAll (repeatedLength op unit count) := by
  unfold repeatedLength
  split <;> simp

@[simp] lemma raisesAll_reserveRepeated [Allocator] (op : Operation) (slot : Slot)
    (unit count : Nat) : (Origin.operation op).RaisesAll (reserveRepeated op slot unit count) := by
  unfold reserveRepeated
  split_ifs <;> simp

@[simp] lemma raisesAll_zeroBytes [Allocator] (op : Operation) (length : Int64) :
    (Origin.operation op).RaisesAll (zeroBytes op length) := by
  simp [zeroBytes]

@[simp] lemma raisedBy_bytesFrom [Allocator] (op : Operation) (v : Value) :
    (bytesFrom op v).RaisedBy (.operation op) := by
  cases v with
  | list r =>
    refine Action.raisedBy_bind (by simp) fun items => ?_
    exact Action.raisedBy_mapM (fun item => by simp) items
  | _ => simp [bytesFrom, Value.integer?]

@[simp] lemma raisedBy_independentCopy (v : Value) :
    (independentCopy v : Action Fault Value).RaisedBy o := by
  unfold independentCopy
  split_ifs
  · exact fun _ => Origin.raisesAll_ok _
  · simp

@[simp] lemma raisedBy_repeatItems [Allocator] (op : Operation) (items : List Value) (count : Nat) :
    (repeatItems op items count).RaisedBy (.operation op) := by
  cases items <;> simp [repeatItems]

@[simp] lemma raisedBy_listRepeat [Allocator] (v : Value) (count : Int64) :
    (listRepeat v count).RaisedBy (.operation .listRepeat) := by
  simp [listRepeat]

@[simp] lemma raisedBy_items (v : Value) : (items v : Action Fault (List Value)).RaisedBy o := by
  refine Action.raisedBy_bind (by simp) fun found => ?_
  cases found <;> simp

end Sequence

namespace Arith

/-- Operands that are no numbers are raised by the operation that takes them. -/
@[simp] lemma raisesAll_operands [FloatPrinter] (op : Operation) (s : Store) (a b : Value) :
    (Origin.operation op).RaisesAll (operands op s a b) := by
  unfold operands
  split <;> simp

@[simp] lemma raisesAll_divisionOperands [FloatPrinter] (op : Operation) (s : Store) (a b : Value) :
    (Origin.operation op).RaisesAll (divisionOperands op s a b) := by
  refine Origin.raisesAll_bind (by simp) fun xy => ?_
  obtain ⟨x, y⟩ := xy
  dsimp only
  split_ifs <;> simp

@[simp] lemma raisesAll_real (op : Operation) (v : Value) :
    (Origin.operation op).RaisesAll (real op v) := by
  unfold real
  split <;> simp

@[simp] lemma raisesAll_applyReal [FloatPrinter] (op : Operation) (f : Binary64 → Binary64)
    (s : Store) (v : Value) : (Origin.operation op).RaisesAll (applyReal op f s v) := by
  refine Origin.raisesAll_bind (by simp) fun x => ?_
  dsimp only
  split_ifs <;> simp

end Arith

namespace Operation

@[simp] lemma raisesAll_testText (op : Operation) (p : String → Bool) (v : Value) :
    (Origin.operation op).RaisesAll (testText op p v) := by
  cases v <;> simp [testText]

end Operation

/-! ### Operations with steps of their own -/

namespace Arith

@[simp] lemma raisedBy_add [FloatPrinter] (a b : Value) : (add a b).RaisedBy (.operation .add) := by
  unfold add
  split
  · simp
  · simp
  · refine Action.raisedBy_bind (by simp) fun joined => ?_
    cases joined with
    | none => simp
    | some data => split_ifs <;> simp

@[simp] lemma raisedBy_repeatSequence [Allocator] (v : Value) (count : Nat) :
    (repeatSequence v count).RaisedBy (.operation .mul) := by
  cases v <;> simp [repeatSequence]

@[simp] lemma raisedBy_mul [Platform] (a b : Value) : (mul a b).RaisedBy (.operation .mul) := by
  have hrepeated (x y : Value) : (mul.repeated a b x y).RaisedBy (.operation .mul) := by
    unfold mul.repeated
    split <;> simp
  unfold mul
  split_ifs <;> simp [hrepeated]

@[simp] lemma raisesAll_neg (a : Value) : (Origin.operation .neg).RaisesAll (neg a) := by
  unfold neg
  split <;> simp

@[simp] lemma raisesAll_abs (a : Value) : (Origin.operation .abs).RaisesAll (abs a) := by
  unfold abs
  split <;> simp

@[simp] lemma raisesAll_floor [FloatPrinter] (s : Store) (v : Value) :
    (Origin.operation .floor).RaisesAll (floor s v) := by
  unfold floor
  split
  · simp
  · refine Origin.raisesAll_bind (by simp) fun x => ?_
    split_ifs
    · simp
    · split <;> simp

end Arith

@[simp] lemma Sequence.raisesAll_range [Allocator] (start stop step : Int64) :
    (Origin.operation .range).RaisesAll (range start stop step) := by
  refine Origin.raisesAll_bind ?_ fun r => ?_
  · unfold StepRange.ofBounds
    split_ifs <;> simp
  · cases toSize? r.remaining.toNat <;> simp

@[simp] lemma Operation.raisesAll_rangeOf [Allocator] (bounds : List Int64) :
    (Origin.operation .range).RaisesAll (rangeOf bounds) := by
  unfold rangeOf
  split <;> simp

@[simp] lemma raisesAll_codePoint (v : Value) :
    (Origin.operation .ord).RaisesAll (codePoint v) := by
  unfold codePoint
  split
  · split <;> simp
  · simp

@[simp] lemma raisesAll_character (code : Int64) :
    (Origin.operation .chr).RaisesAll (character code) := by
  unfold character
  dsimp only
  split_ifs <;> simp

namespace Value

@[simp] lemma raisesAll_length (s : Store) (v : Value) :
    (Origin.operation .len).RaisesAll (v.length s) := by
  unfold length
  split <;> simp

@[simp] lemma raisesAll_compare [FloatPrinter] (s : Store) (a b : Value) :
    (Origin.operation .compare).RaisesAll (a.compare s b) := by
  intro f hf
  obtain ⟨x, y, rfl⟩ := fault_of_compareBelow hf
  rfl

/-- Choosing between two values raises what comparing them raises. -/
lemma raisesAll_prefer [FloatPrinter] (order : Ordering) (s : Store) (a b : Value) :
    (Origin.operation .compare).RaisesAll (prefer order s a b) := by
  simp [prefer]

end Value

namespace Subscript

@[simp] lemma raisedBy_getWith (policy : Policy) (container : Value) (index : Int64) :
    (getWith policy container index).RaisedBy (.operation .getIndex) := by
  cases policy with
  | lenient => exact (get_succeeds container index).raisedBy
  | strict =>
    intro s
    simp only [getWith, getStrict, Action.check_apply]
    split
    · split <;> simp
    · split
      · simp
      · split <;> simp

@[simp] lemma raisedBy_setWith [FloatPrinter] (policy : Policy) (container : Value)
    (index : Int64) (v : Value) :
    (setWith policy container index v).RaisedBy (.operation .setIndex) := by
  have hinside (n : Nat) :
      (Origin.operation .setIndex).RaisesAll (setStrict.inside container index n) := by
    unfold setStrict.inside
    split <;> simp
  cases policy with
  | lenient => exact (set_succeeds container index v).raisedBy
  | strict =>
    cases container with
    | byteArray r =>
      refine Action.raisedBy_bind (by simp [hinside]) fun p => ?_
      split <;> simp
    | _ => simp [setWith, setStrict, hinside]

@[simp] lemma raisedBy_slice (container : Value) (lo hi : Option Int64) :
    (slice container lo hi : Action Fault Value).RaisedBy o := by
  refine Action.raisedBy_bind (by simp) fun length => ?_
  cases length with
  | none => simp
  | some n => cases container <;> simp

end Subscript

/-! ### Operations that hand a step to a primitive -/

/-- What raises the faults of looking a value up in a map: hashing if it is no key. -/
def Key.raiser (op : Operation) (key : Value) : Origin :=
  if (Key.ofValue? key).isNone then .hash else .operation op

/-- A value that is no key is raised by hashing. -/
lemma Key.raisesAll_ofValue (op : Operation) (key : Value) :
    (raiser op key).RaisesAll (ofValue key) := by
  unfold ofValue raiser
  cases ofValue? key <;> simp

/-- Behind a key the operation itself raises. -/
lemma Key.raiser_of_ofValue {op : Operation} {key : Value} {k : Key} (h : ofValue key = .ok k) :
    raiser op key = .operation op := by
  unfold ofValue at h
  unfold raiser
  cases hkey : ofValue? key with
  | none => simp [hkey] at h
  | some k => rfl

/-- What raises the faults of reading an item strictly: on a map looking it up, on anything else
reading by subscript if the key is an integer. -/
def Subscript.itemRaiser (container key : Value) : Origin :=
  match container with
  | .map _ => Key.raiser .getItem key
  | _ => if key.integer?.isSome then .operation .getIndex else .operation .getItem

/-- Reading an item raises by what it does with the container. -/
lemma Subscript.raisedBy_getItemStrict [FloatPrinter] (container key : Value) :
    (getItemStrict container key).RaisedBy (itemRaiser container key) := by
  cases container with
  | map r =>
    intro s f hf
    obtain hf | ⟨k, hk, hf⟩ := Action.bind_error_iff.1 hf
    · exact Key.raisesAll_ofValue .getItem key f hf
    · -- the key could be hashed, and the map does not hold it
      rw [itemRaiser, Key.raiser_of_ofValue hk]
      simp only [Action.check_apply] at hf
      split at hf
      · cases hf
      · cases hf
        rfl
  | _ =>
    unfold getItemStrict itemRaiser
    dsimp only
    cases key.integer? with
    | none => simp
    | some index => exact raisedBy_getWith .strict _ index

/-- What raises the faults of a test for membership: in a map looking the item up. -/
def Value.containsRaiser (container item : Value) : Origin :=
  match container with
  | .map _ => Key.raiser .contains item
  | _ => .operation .contains

lemma Value.raisesAll_bytesContain [FloatPrinter] (s : Store) (data : List UInt8) (item : Value) :
    (Origin.operation .contains).RaisesAll (bytesContain s data item) := by
  unfold bytesContain
  split
  · split <;> simp
  · simp
  · simp

lemma Value.raisesAll_contains [FloatPrinter] (s : Store) (container item : Value) :
    (containsRaiser container item).RaisesAll (container.contains s item) := by
  cases container with
  | map r => exact Origin.raisesAll_bind (Key.raisesAll_ofValue .contains item) fun k => by simp
  | str t => cases item <;> simp [contains, containsRaiser]
  | bytes data => exact raisesAll_bytesContain s data item
  | byteArray r => exact raisesAll_bytesContain s (s.data r) item
  | _ => simp [contains, containsRaiser]

namespace Operation

/-- What raises the faults of a call: the operation itself, except where it hands the step that can
fail to a primitive. Looking up in a map hashes, reading an item with an integer reads by subscript,
and choosing among candidates compares them. -/
def raiser (op : Operation) (args : List Value) (policy : Policy) (s : Store) : Origin :=
  match op, policy with
  | contains, _ => (args.getD 0 .nil).containsRaiser (args.getD 1 .nil)
  | getItem, .strict => Subscript.itemRaiser (args.getD 0 .nil) (args.getD 1 .nil)
  | min, _ | max, _ => if candidates s args = [] then .operation op else .operation compare
  | _, _ => .operation op

/-- Picking from nothing is raised by the operation, picking from candidates by comparing them. -/
lemma raisesAll_pickFrom [FloatPrinter] (op : Operation) (order : Ordering) (args : List Value)
    (s : Store) :
    (if candidates s args = [] then .operation op else .operation compare : Origin).RaisesAll
      (pickFrom op (Value.prefer order) args s).result := by
  rw [result_pickFrom]
  cases candidates s args with
  | nil => simp
  | cons first rest => exact Origin.raisesAll_foldlM (Value.raisesAll_prefer order s) first rest

@[simp] lemma raisedBy_bound (v : Value) : (bound v).RaisedBy o := by
  cases v <;> simp [bound]

/-- An operation that hands no step to a primitive raises its faults itself. -/
lemma raisedBy_apply [Platform] {op : Operation} (hop : op ∉ [getItem, contains, min, max])
    (args : List Value) (policy : Policy) : (op.apply args policy).RaisedBy (.operation op) := by
  cases op with
  | getItem | contains | min | max => simp at hop
  | floordiv => simp [apply, Arith.floordiv]
  | mod => simp [apply, Arith.mod]
  | sub => simp [apply, Arith.sub]
  | truediv => simp [apply, Arith.truediv]
  | bytearray =>
    simp only [apply]
    split <;> simp [Sequence.zeroByteArray, Sequence.byteArrayFrom]
  | bytes => simp [apply, Sequence.byteStringFrom]
  | enumerate =>
    refine Action.raisedBy_bind (by simp [Sequence.enumerate]) fun pairs => ?_
    exact Action.raisedBy_bind (Action.raisedBy_mapM (fun _ => by simp) pairs) fun rows => by simp
  | _ => simp [apply]

/-- Every fault of a call has the origin that its arguments and its policy determine. -/
lemma raisesAll_apply [Platform] (op : Operation) (args : List Value) (policy : Policy)
    (s : Store) : (op.raiser args policy s).RaisesAll (op.apply args policy s).result := by
  cases op with
  | contains =>
    refine Action.raisedBy_bind (Action.raisedBy_check_iff.2 fun s => ?_) (fun _ => by simp) s
    exact Value.raisesAll_contains s _ _
  | getItem =>
    cases policy with
    | lenient => exact (Subscript.getItem_succeeds _ _).raisedBy s
    | strict => exact Subscript.raisedBy_getItemStrict _ _ s
  | min => exact raisesAll_pickFrom min .lt args s
  | max => exact raisesAll_pickFrom max .gt args s
  | _ => exact raisedBy_apply (by decide) args policy s

/-- An operation is found by its name. -/
lemma ofName?_name (op : Operation) : ofName? op.name = some op := by
  cases op <;> decide

end Operation

/-- Only the operation itself has its name. -/
lemma Origin.name_eq_iff {op : Operation} : o.name = op.name ↔ o = .operation op := by
  refine ⟨fun h => ?_, fun h => by rw [h, name]⟩
  -- no operation is called by the name of another step
  have hother : ∀ o ∈ [hash, setItem, frame, checkFrame, checkPalette],
      Operation.ofName? o.name = none := by decide
  have hop := Operation.ofName?_name op
  rw [← h] at hop
  cases o with
  | operation op' =>
    rw [name, Operation.ofName?_name] at hop
    rw [Option.some.inj hop]
  | _ =>
    rw [hother _ (by simp)] at hop
    cases hop

namespace Operation

/-- A fault of a call names what raised it. It has the name of the operation exactly if the call did
not hand the step that failed to a primitive. -/
theorem apply_fault_names_raiser [Platform] (op : Operation) (args : List Value) (policy : Policy)
    (s : Store) (f : Fault) (h : (op.apply args policy s).result = .error f) :
    f.origin = op.raiser args policy s ∧
      (f.origin.name = op.name ↔ op.raiser args policy s = .operation op) := by
  have hf := raisesAll_apply op args policy s f h
  exact ⟨hf, by rw [Origin.name_eq_iff, hf]⟩

section

attribute [local instance] Platform.standard

/-- Reading an item of a list with an integer behind its end. -/
theorem getItem_fault_names_getIndex :
    let s : Store := ⟨#[.list [.int 1]]⟩
    let f : Fault := .of getIndex (.indexOutOfRange 5 .list 1)
    (getItem.apply [.list ⟨0⟩, .int 5] .strict s).result = .error f ∧
      f.origin = getItem.raiser [.list ⟨0⟩, .int 5] .strict s ∧ f.origin.name ≠ getItem.name := by
  intro s f
  have hf : (getItem.apply [.list ⟨0⟩, .int 5] .strict s).result = .error f := rfl
  obtain ⟨horigin, hname⟩ := apply_fault_names_raiser getItem _ _ _ f hf
  exact ⟨hf, horigin, fun h => absurd (hname.1 h) (by decide)⟩

/-- Looking a list up in a map raises a fault that names hashing. -/
theorem contains_fault_names_hash :
    ¬∀ (op : Operation) (args : List Value) (policy : Policy) (s : Store) (f : Fault),
      (op.apply args policy s).result = .error f → f.origin.name = op.name := by
  intro h
  have hname := h contains [.map ⟨0⟩, .list ⟨1⟩] .lenient ⟨#[.map [], .list []]⟩
    ⟨.hash, .unhashable .list⟩ rfl
  exact absurd hname (by decide)

end

end Operation

end Dynval
