import Dynval.Proofs.Action.Placed
import Dynval.Proofs.Value.Rename

/-!
# Operations above a store

Every operation does above a store what it does alone: called on the moved arguments, it answers the
moved result or the same fault and reports the same events. So no operation can tell where in a
store its arguments are, or what else is there.
-/

namespace Dynval

open Dynval.Action (Placed)

variable {ε : Type} {base : Store}

/-! ### Conversions -/

lemma Value.placed_asInt (v : Value) :
    Placed base id (v.asInt : Action ε Int64) (base.move v).asInt := by
  simp only [asInt, toIntEvents_rename, toInt_rename]
  exact .bind (.report _) fun _ => .pure rfl

lemma Value.placed_asFloat (v : Value) :
    Placed base id (v.asFloat : Action ε Binary64) (base.move v).asFloat := by
  simp only [asFloat, toFloatEvents_rename, toFloat_rename]
  exact .bind (.report _) fun _ => .pure rfl

/-! ### Subscripts -/

namespace Store

variable (base t : Store)

lemma setItem_above (r : Ref) (p : Nat) (v : Value) :
    (base.above t).setItem (r.shift base.size) p (base.move v) = base.above (t.setItem r p v) := by
  rw [setItem, (base.embeds_above t).items, ← List.map_set, setItems_above]
  rfl

lemma setByte_above (r : Ref) (p : Nat) (b : UInt8) :
    (base.above t).setByte (r.shift base.size) p b = base.above (t.setByte r p b) := by
  rw [setByte, (base.embeds_above t).data, setData_above]
  rfl

lemma setEntry_above (r : Ref) (k : Key) (v : Value) :
    (base.above t).setEntry (r.shift base.size) k (base.move v) =
      base.above (t.setEntry r k v) := by
  rw [setEntry, (base.embeds_above t).entries, Entries.insert_mapValues, setEntries_above]
  rfl

end Store

namespace Subscript

/-- A lenient read answers the moved element above a store. -/
lemma placed_get (container : Value) (index : Int64) :
    Placed base base.move (get container index : Action ε Value)
      (get (base.move container) index) := by
  simp only [get, Value.kind_rename, Value.neutralDefault_rename]
  refine .bind (.query fun t => (base.embeds_above t).element? index container) fun found => ?_
  cases found with
  | none => exact .bind (.report _) fun _ => .pure rfl
  | some v => exact .pure rfl

/-- A strict read answers the moved element above a store, or the same fault. -/
lemma placed_getStrict (container : Value) (index : Int64) :
    Placed base base.move (getStrict container index) (getStrict (base.move container) index) := by
  refine .check fun t => ?_
  have hlength := (base.embeds_above t).sequenceLength? container
  have helement := (base.embeds_above t).element? index container
  cases container with
  | map r =>
    simp only [Value.rename_map, (base.embeds_above t).entries, Entries.find?_mapValues]
    cases (t.entries r).find? (.int index) <;> rfl
  | list r | str u | byteArray r | bytes data =>
    simp only [Value.rename_list, Value.rename_str, Value.rename_byteArray, Value.rename_bytes]
      at hlength helement ⊢
    simp only [hlength, helement]
    cases Value.element? t index _ <;> rfl
  | nil | bool b | int i | float x => rfl

lemma placed_getItem (container key : Value) :
    Placed base base.move (getItem container key : Action ε Value)
      (getItem (base.move container) (base.move key)) := by
  cases container with
  | map r =>
    have hfound : ∀ t, ((Key.ofValue? (base.move key)).bind fun k =>
        ((base.above t).entries (r.shift base.size)).find? k) =
          ((Key.ofValue? key).bind fun k => (t.entries r).find? k).map base.move := by
      intro t
      simp [(base.embeds_above t).entries, Entries.find?_mapValues, Option.map_bind]
    refine .bind (.query hfound) fun found => .pure ?_
    cases found <;> rfl
  | _ => exact .bind (Value.placed_asInt key) fun i => placed_get _ i

lemma placed_getItemStrict [FloatPrinter] (container key : Value) :
    Placed base base.move (getItemStrict container key)
      (getItemStrict (base.move container) (base.move key)) := by
  cases container with
  | map r =>
    refine .bind (.check_same fun _ => Key.ofValue_rename _ key) fun k => .check fun t => ?_
    simp only [(base.embeds_above t).entries, Entries.find?_mapValues,
      (base.embeds_above t).operand, id]
    cases (t.entries r).find? k <;> rfl
  | _ =>
    simp only [getItemStrict, Value.integer?_rename, Value.kind_rename]
    cases key.integer? with
    | none => exact .fail _
    | some i => exact placed_getStrict _ i

lemma placed_getWith (policy : Policy) (container : Value) (index : Int64) :
    Placed base base.move (getWith policy container index)
      (getWith policy (base.move container) index) := by
  cases policy
  · exact placed_get container index
  · exact placed_getStrict container index

lemma placed_getItemWith [FloatPrinter] (policy : Policy) (container key : Value) :
    Placed base base.move (getItemWith policy container key)
      (getItemWith policy (base.move container) (base.move key)) := by
  cases policy
  · exact placed_getItem container key
  · exact placed_getItemStrict container key

/-- A slice above a store is the moved slice. -/
lemma placed_slice (container : Value) (lo hi : Option Int64) :
    Placed base base.move (slice container lo hi : Action ε Value)
      (slice (base.move container) lo hi) := by
  simp only [slice, Value.kind_rename]
  refine .bind (.query_same fun t => (base.embeds_above t).sequenceLength? container)
    fun length => ?_
  cases length with
  | none => exact .bind (.report _) fun _ => .pure rfl
  | some n =>
    cases container with
    | list r =>
      refine .bind (g := List.map base.move) (.query fun t => ?_) fun items => .newList items
      simp [(base.embeds_above t).items, List.extract, List.map_take, List.map_drop]
    | byteArray r =>
      refine .bind (.query_same fun t => ?_) fun data => .newByteArray data
      rw [(base.embeds_above t).data]
    | _ => exact .pure rfl

lemma placed_dropWrite (container : Value) (index : Int64) :
    Placed base id (dropWrite container index : Action ε Unit)
      (dropWrite (base.move container) index) := by
  rw [dropWrite, dropWrite, Value.kind_rename]
  exact .report _

/-- A lenient write above a store changes the moved container. -/
lemma placed_set (container : Value) (index : Int64) (v : Value) :
    Placed base id (set container index v : Action ε Unit)
      (set (base.move container) index (base.move v)) := by
  cases container with
  | list r =>
    refine .bind (.query_same fun t => ?_) fun p => ?_
    · rw [(base.embeds_above t).items, List.length_map]
    · cases p with
      | none => exact placed_dropWrite (.list r) index
      | some p => exact .modify fun t => base.setItem_above t r p v
  | byteArray r =>
    refine .bind (.query_same fun t => ?_) fun p => ?_
    · rw [(base.embeds_above t).data]
    · cases p with
      | none => exact placed_dropWrite (.byteArray r) index
      | some p =>
        exact .bind (Value.placed_asInt v) fun i => .modify fun t => base.setByte_above t r p _
  | map r => exact .modify fun t => base.setEntry_above t r (.int index) v
  | _ => exact placed_dropWrite _ index

/-- A strict write above a store changes the moved container, or raises the same fault. -/
lemma placed_setStrict [FloatPrinter] (container : Value) (index : Int64) (v : Value) :
    Placed base id (setStrict container index v)
      (setStrict (base.move container) index (base.move v)) := by
  cases container with
  | list r =>
    refine .bind (.check_same fun t => ?_) fun p => ?_
    · rw [(base.embeds_above t).items, List.length_map]
      rfl
    · exact .modify fun t => base.setItem_above t r p v
  | byteArray r =>
    refine .bind (.check_same fun t => ?_) fun p => ?_
    · rw [(base.embeds_above t).data]
      rfl
    · simp only [Value.integer?_rename]
      cases v.integer?.bind byteOf? with
      | none =>
        refine .check_same fun t => ?_
        rw [(base.embeds_above t).operand]
      | some b => exact .modify fun t => base.setByte_above t r p b
  | map r => exact .modify fun t => base.setEntry_above t r (.int index) v
  | _ => exact .fail _

lemma placed_setWith [FloatPrinter] (policy : Policy) (container : Value) (index : Int64)
    (v : Value) :
    Placed base id (setWith policy container index v)
      (setWith policy (base.move container) index (base.move v)) := by
  cases policy
  · exact placed_set container index v
  · exact placed_setStrict container index v

end Subscript

/-! ### Sequences -/

namespace Sequence

lemma placed_items (v : Value) :
    Placed base (List.map base.move) (items v : Action ε (List Value)) (items (base.move v)) := by
  simp only [items, Value.kind_rename]
  refine .bind (.query fun t => (base.embeds_above t).items? v) fun found => ?_
  cases found with
  | none => exact .bind (.report _) fun _ => .pure rfl
  | some items => exact .pure rfl

lemma placed_enumerate (v : Value) :
    Placed base (List.map (Prod.map id base.move)) (enumerate v : Action ε (List (Nat × Value)))
      (enumerate (base.move v)) := by
  refine .bind (placed_items v) fun items => .pure ?_
  simp [List.zipIdx_map, Function.comp_def]

/-- The bytes of a value do not depend on where its containers are. -/
lemma placed_bytesFrom [Allocator] (op : Operation) (v : Value) :
    Placed base id (bytesFrom op v) (bytesFrom op (base.move v)) := by
  cases v with
  | list r =>
    refine .bind (.query fun t => (base.embeds_above t).items r) fun items => ?_
    rw [← List.map_id_fun]
    refine .mapM (g := base.move) (k := id) (fun item => ?_) items
    exact .bind item.placed_asInt fun i => .pure rfl
  | byteArray r => exact .query_same fun t => (base.embeds_above t).data r
  | bytes data => exact .pure rfl
  | str t => exact .pure rfl
  | bool b => exact .check_same fun _ => rfl
  | int i => exact .check_same fun _ => rfl
  | _ => exact .fail _

lemma placed_byteArrayFrom [Allocator] (v : Value) :
    Placed base base.move (byteArrayFrom v) (byteArrayFrom (base.move v)) :=
  .bind (placed_bytesFrom .bytearray v) fun data => .newByteArray data

lemma placed_byteStringFrom [Allocator] (v : Value) :
    Placed base base.move (byteStringFrom v) (byteStringFrom (base.move v)) :=
  .bind (placed_bytesFrom .bytes v) fun _ => .pure rfl

lemma placed_zeroByteArray [Allocator] (length : Int64) :
    Placed base base.move (zeroByteArray length) (zeroByteArray length) :=
  .bind (.check_same fun _ => rfl) fun data => .newByteArray data

lemma placed_independentCopy (v : Value) :
    Placed base base.move (independentCopy v : Action ε Value) (independentCopy (base.move v)) := by
  rw [independentCopy, independentCopy, Value.kind_rename]
  split_ifs
  · exact .update fun t => base.deepCopy_above t v
  · exact .pure rfl

/-- Repetition above a store copies the moved items. -/
lemma placed_repeatItems [Allocator] (op : Operation) (items : List Value) (count : Nat) :
    Placed base (List.map base.move) (repeatItems op items count)
      (repeatItems op (items.map base.move) count) := by
  simp only [repeatItems, List.length_map, List.isEmpty_map, ← map_repeatList]
  refine .bind (.check_same fun _ => rfl) fun _ => ?_
  split_ifs
  · exact .pure rfl
  · exact .mapM placed_independentCopy _

lemma placed_listRepeat [Allocator] (v : Value) (count : Int64) :
    Placed base base.move (listRepeat v count) (listRepeat (base.move v) count) := by
  simp only [listRepeat, Value.kind_rename]
  exact .bind (.report _) fun _ =>
    .bind (placed_repeatItems .listRepeat [v] _) fun items => .newList items

end Sequence

/-! ### Arithmetic -/

namespace Arith

open Sequence

lemma placed_add [FloatPrinter] (a b : Value) :
    Placed base base.move (add a b) (add (base.move a) (base.move b)) := by
  by_cases htexts : ∀ x y, a = .str x → b = .str y → False
  · by_cases hlists : ∀ x y, a = .list x → b = .list y → False
    · rw [add, add]
      · simp only [Value.kind_rename]
        refine .bind (.query_same fun t => ?_) fun joined => ?_
        · simp only [(base.embeds_above t).byteData?]
        · cases joined with
          | some data =>
            simp only [id]
            split_ifs
            · exact .newByteArray data
            · exact .pure rfl
          | none =>
            refine .check fun t => ?_
            simp [(base.embeds_above t).operands]
      · simpa using htexts
      · exact Value.not_lists_rename _ hlists
      · exact htexts
      · exact hlists
    · push Not at hlists
      obtain ⟨x, y, rfl, rfl, -⟩ := hlists
      refine .bind (g := List.map base.move) (.query fun t => ?_) fun items => .newList items
      rw [(base.embeds_above t).items, (base.embeds_above t).items, List.map_append]
  · push Not at htexts
    obtain ⟨x, y, rfl, rfl, -⟩ := htexts
    exact .pure rfl

lemma placed_repeatSequence [Allocator] (v : Value) (count : Nat) :
    Placed base base.move (repeatSequence v count) (repeatSequence (base.move v) count) := by
  cases v with
  | str t => exact .bind (.check_same fun _ => rfl) fun _ => .pure rfl
  | list r =>
    exact .bind (.query fun t => (base.embeds_above t).items r) fun items =>
      .bind (placed_repeatItems .mul items count) fun copies => .newList copies
  | byteArray r =>
    exact .bind (.query_same fun t => (base.embeds_above t).data r) fun data =>
      .bind (.check_same fun _ => rfl) fun _ => .newByteArray _
  | bytes data => exact .bind (.check_same fun _ => rfl) fun _ => .pure rfl
  | _ => exact .pure rfl

@[simp] lemma isRepeatable_rename (f : Ref → Ref) (v : Value) :
    isRepeatable (v.rename f) = isRepeatable v := by
  rw [isRepeatable, isRepeatable, Value.kind_rename]

/-- A product above a store is the moved product. -/
lemma placed_mul [Platform] (a b : Value) :
    Placed base base.move (mul a b) (mul (base.move a) (base.move b)) := by
  have hrepeated (x y : Value) : Placed base base.move (mul.repeated a b x y)
      (mul.repeated (base.move a) (base.move b) (base.move x) (base.move y)) := by
    simp only [mul.repeated, Value.integer?_rename]
    cases y.integer? with
    | some n => exact placed_repeatSequence x _
    | none =>
      refine .check fun t => ?_
      simp only [(base.embeds_above t).operand]
      rfl
  simp only [mul, isRepeatable_rename]
  split_ifs
  · exact hrepeated a b
  · exact hrepeated b a
  · refine .check fun t => ?_
    simp [(base.embeds_above t).operands]

end Arith

/-! ### All operations -/

namespace Operation

lemma placed_bound (v : Value) : Placed base id (bound v) (bound (base.move v)) := by
  cases v with
  | nil => exact .pure rfl
  | _ => exact .bind (Value.placed_asInt _) fun i => .pure rfl

lemma testText_rename (op : Operation) (p : String → Bool) (f : Ref → Ref) (v : Value) :
    testText op p (v.rename f) = Value.rename f <$> testText op p v := by
  cases v <;> rfl

lemma codePoint_rename (f : Ref → Ref) (v : Value) : codePoint (v.rename f) = codePoint v := by
  cases v <;> rfl

lemma rename_character (f : Ref → Ref) (code : Int64) :
    character code = Value.rename f <$> character code := by
  rw [character]
  split_ifs <;> rfl

/-- A fold over moved values is moved when each step is. -/
lemma foldlM_move {pick : Store → Value → Value → Except Fault Value} {t : Store}
    (hpick : ∀ a b, pick (base.above t) (base.move a) (base.move b) = base.move <$> pick t a b)
    (first : Value) (rest : List Value) :
    (rest.map base.move).foldlM (pick (base.above t)) (base.move first) =
      base.move <$> rest.foldlM (pick t) first := by
  induction rest generalizing first with
  | nil => rfl
  | cons v rest ih =>
    rw [List.map_cons, List.foldlM_cons, List.foldlM_cons, hpick]
    cases pick t first v with
    | error e => rfl
    | ok w => exact ih w

/-- What is picked above a store is the moved pick. -/
lemma placed_pickFrom (op : Operation) {pick : Store → Value → Value → Except Fault Value}
    (hpick : ∀ t a b, pick (base.above t) (base.move a) (base.move b) = base.move <$> pick t a b)
    (args : List Value) :
    Placed base base.move (pickFrom op pick args) (pickFrom op pick (args.map base.move)) := by
  rcases args with _ | ⟨single, _ | ⟨second, rest⟩⟩
  · exact .fail _
  · refine .bind (Sequence.placed_items single) fun candidates => ?_
    cases candidates with
    | nil => exact .fail _
    | cons first rest => exact .check fun t => foldlM_move (hpick t) first rest
  · exact .check fun t => foldlM_move (hpick t) single (second :: rest)

/-- Every operation does above a store what it does alone. -/
lemma placed_apply [Platform] (op : Operation) (args : List Value) (policy : Policy) :
    Placed base base.move (op.apply args policy) (op.apply (args.map base.move) policy) := by
  have h := base.embeds_above
  have harg : ∀ i, (args.map base.move).getD i .nil = base.move (args.getD i .nil) := by
    intro i
    simp only [List.getD_eq_getElem?_getD, List.getElem?_map]
    cases args[i]? <;> rfl
  unfold apply
  simp only [harg]
  generalize args.getD 0 .nil = a
  generalize args.getD 1 .nil = b
  generalize args.getD 2 .nil = c
  cases op with
  | truthy => exact .bind (.query_same fun t => (h t).truthy a) fun _ => .pure rfl
  | toInt => exact .bind a.placed_asInt fun _ => .pure rfl
  | toFloat => exact .bind a.placed_asFloat fun _ => .pure rfl
  | toStr => exact .bind (.query_same fun t => (h t).toText a) fun _ => .pure rfl
  | getIndex => exact .bind b.placed_asInt fun i => Subscript.placed_getWith policy a i
  | getItem => exact Subscript.placed_getItemWith policy a b
  | setIndex =>
    exact .bind b.placed_asInt fun i =>
      .bind (Subscript.placed_setWith policy a i c) fun _ => .pure rfl
  | slice =>
    exact .bind (placed_bound b) fun lo => .bind (placed_bound c) fun hi =>
      Subscript.placed_slice a lo hi
  | floordiv => exact .check fun t => (h t).floordiv a b
  | mod => exact .check fun t => (h t).mod a b
  | add => exact Arith.placed_add a b
  | sub => exact .check fun t => (h t).sub a b
  | mul => exact Arith.placed_mul a b
  | truediv => exact .check fun t => (h t).truediv a b
  | neg => exact .check fun _ => Arith.neg_rename _ a
  | compare =>
    exact .bind (.check_same fun t => (h t).compare a b) fun o =>
      .pure (rename_orderValue _ o).symm
  | bytearray =>
    cases a with
    | int n => exact Sequence.placed_zeroByteArray n
    | _ => exact Sequence.placed_byteArrayFrom _
  | bytes => exact Sequence.placed_byteStringFrom a
  | listRepeat => exact .bind b.placed_asInt fun n => Sequence.placed_listRepeat a n
  | range =>
    refine .bind (.mapM Value.placed_asInt args) fun bounds => ?_
    rw [List.map_id]
    refine .bind (.check_same fun _ => rfl) fun integers => ?_
    have hlist : Placed base base.move (newList (integers.map Value.int) : Action Fault Value)
        (newList ((integers.map Value.int).map base.move)) := .newList _
    rwa [List.map_map] at hlist
  | enumerate =>
    refine .bind (Sequence.placed_enumerate a) fun pairs => ?_
    refine .bind (.mapM (g := Prod.map id base.move) (k := base.move) (fun pair => ?_) pairs)
      fun rows => .newList rows
    exact .newList [.ofNat pair.1, pair.2]
  | isdigit | isalpha | isspace | isalnum => exact .check fun _ => testText_rename _ _ _ a
  | ord => exact .bind (.check_same fun _ => codePoint_rename _ a) fun _ => .pure rfl
  | chr => exact .bind a.placed_asInt fun code => .check fun _ => rename_character _ code
  | len => exact .bind (.check_same fun t => (h t).length a) fun _ => .pure rfl
  | contains => exact .bind (.check_same fun t => (h t).contains a b) fun _ => .pure rfl
  | stringify => exact .bind (.query_same fun t => (h t).display a) fun _ => .pure rfl
  | repr => exact .bind (.query_same fun t => (h t).repr a) fun _ => .pure rfl
  | min => exact placed_pickFrom min (fun t => (h t).prefer .lt) args
  | max => exact placed_pickFrom max (fun t => (h t).prefer .gt) args
  | print =>
    refine .bind (.query_same fun t => ?_) fun _ => .pure rfl
    rw [(h t).lineOf]
  | abs => exact .check fun _ => Arith.abs_rename _ a
  | sqrt | sin | cos | exp => exact .check fun t => (h t).applyReal _ _ a
  | floor => exact .check fun t => (h t).floor a

end Operation

end Dynval
