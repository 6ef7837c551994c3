import Dynval.Platform
import Dynval.Proofs.Sequence.Bytes
import Dynval.Proofs.Store.Tree

/-!
# Values written as literals

Every acyclic value can be written as a literal. The evaluation of that literal gives the value
back: a tree of new containers with the same labels along the same paths.
-/

namespace Dynval

open Dynval.Action (Placed)

/-! ### Writing -/

def Toml.nil : Toml :=
  .table [("$nil", .boolean true)]

def Toml.ofBytes (data : List UInt8) : Toml :=
  .array (data.map fun b => .integer (Int64.ofNat b.toNat))

def Key.literal : Key → Toml
  | .nil => .nil
  | .int i => .integer i
  | .float x => .float x
  | .str s => .string s
  | .bytes data => .table [("$bytes", .ofBytes data)]

/-- The literal of a datum; a cut is written as an empty container. -/
def Datum.literal : Datum → Toml
  | .nil => .nil
  | .bool b => .boolean b
  | .int i => .integer i
  | .float x => .float x
  | .str s => .string s
  | .list items => .array (items.map literal)
  | .map entries =>
    .table [("$map", .array (entries.map fun e => .array [e.1.literal, literal e.2]))]
  | .byteArray data => .table [("$bytearray", .ofBytes data)]
  | .bytes data => .table [("$bytes", .ofBytes data)]
  | .cutList => .array []
  | .cutMap => .table [("$map", .array [])]
decreasing_by
  · decreasing_tactic
  · rename_i h
    have := List.sizeOf_lt_of_mem h
    cases e
    simp only [Datum.map.sizeOf_spec, Prod.mk.sizeOf_spec] at *
    omega

/-- The literal of a value. -/
def Value.literal (s : Store) (v : Value) : Toml :=
  (v.view s).literal

namespace Value

variable {s : Store}

/-- The literal of a list without cycles is the array of the literals of its elements. -/
lemma literal_list {r : Ref} (h : s.Acyclic (.list r)) :
    (Value.list r).literal s = .array ((s.items r).map (literal s)) := by
  rw [literal, view_list h, Datum.literal, List.map_map]
  rfl

/-- The literal of a map without cycles is a tagged array of pairs. -/
lemma literal_map {r : Ref} (h : s.Acyclic (.map r)) :
    (Value.map r).literal s = .table
      [("$map", .array ((s.entries r).map fun e => .array [e.1.literal, e.2.literal s]))] := by
  rw [literal, view_map h, Datum.literal, List.map_map]
  rfl

/-- A key is written as its value is. -/
lemma literal_toValue (s : Store) (k : Key) : k.toValue.literal s = k.literal := by
  cases k <;> simp [literal, view, viewBelow, Key.toValue, Datum.literal, Key.literal]

end Value

/-! ### Reading bytes -/

namespace Literal

/-- Items are evaluated one after another. -/
lemma evalItems_eq_mapM [Allocator] (items : List Toml) : evalItems items = items.mapM eval := by
  induction items with
  | nil => rw [evalItems, List.mapM_nil]
  | cons item items ih => rw [evalItems, List.mapM_cons, ih]

lemma mapM_map_pure {ε α β γ : Type} {f : β → Action ε γ} {g : α → β} {k : α → γ}
    (h : ∀ a, f (g a) = pure (k a)) (as : List α) : (as.map g).mapM f = pure (as.map k) := by
  induction as with
  | nil => rfl
  | cons a as ih =>
    rw [List.map_cons, List.mapM_cons, h, ih, pure_bind, pure_bind]
    rfl

lemma eval_ofBytes [Allocator] (data : List UInt8) :
    eval (.ofBytes data) = newList (data.map Value.ofByte) := by
  have hinteger : ∀ b : UInt8, eval (.integer (Int64.ofNat b.toNat)) = pure (Value.ofByte b) := by
    intro b
    rw [eval]
    rfl
  rw [Toml.ofBytes, eval, evalItems_eq_mapM, mapM_map_pure hinteger, pure_bind]

/-- The literal of a byte string reads back; the list of its bytes is left behind. -/
lemma eval_bytes [Allocator] (data : List UInt8) (s : Store) :
    eval (.table [("$bytes", .ofBytes data)]) s =
      ⟨.ok (.bytes data), (s.alloc (.list (data.map Value.ofByte))).2, []⟩ := by
  have htag : Tag.ofKey "$bytes" = .bytes := rfl
  rw [eval_tagged, htag, eval_ofBytes]
  simp only [Action.bind_apply, newList_apply, Action.mapError, Sequence.byteStringFrom,
    Sequence.bytesFrom_list_ofByte .bytes (s.items_alloc_self _)]
  rfl

/-- The literal of a byte array reads back as a new one. -/
lemma eval_byteArray [Allocator] (data : List UInt8) (s : Store) :
    let t := (s.alloc (.list (data.map Value.ofByte))).2
    eval (.table [("$bytearray", .ofBytes data)]) s =
      ⟨.ok (.byteArray ⟨t.size⟩), (t.alloc (.byteArray data)).2, []⟩ := by
  have htag : Tag.ofKey "$bytearray" = .byteArray := rfl
  rw [eval_tagged, htag, eval_ofBytes]
  simp only [Action.bind_apply, newList_apply, Action.mapError, Sequence.byteArrayFrom,
    Sequence.bytesFrom_list_ofByte .bytearray (s.items_alloc_self _), newByteArray_apply]
  rfl

/-- A value that is no container comes back from its literal in every store. -/
lemma eval_scalar [Allocator] {v : Value} (hv : v.ref? = none) (s t : Store) :
    ∃ u, eval (v.literal s) t = ⟨.ok v, u, []⟩ := by
  rw [Value.literal, Value.view]
  cases v with
  | nil =>
    have htag : Tag.ofKey "$nil" = .nil := rfl
    rw [Value.viewBelow, Datum.literal, Toml.nil, eval_tagged, htag]
    exact ⟨t, rfl⟩
  | bytes data =>
    rw [Value.viewBelow, Datum.literal]
    exact ⟨_, eval_bytes data t⟩
  | list r => cases hv
  | map r => cases hv
  | byteArray r => cases hv
  | _ =>
    rw [Value.viewBelow, Datum.literal, eval]
    exact ⟨t, rfl⟩

/-- The literal of a key reads back as its value. -/
lemma eval_key [Allocator] (k : Key) (s : Store) :
    ∃ t, eval k.literal s = ⟨.ok k.toValue, t, []⟩ := by
  rw [← Value.literal_toValue .empty]
  exact eval_scalar (by cases k <;> rfl) _ s

/-! ### Reading containers -/

variable {ε : Type} {s : Store}

/-- Whether an action, done in the empty store, answers a tree with the shape of a value. -/
def Rebuilds (s : Store) (v : Value) (x : Action ε Value) : Prop :=
  ∃ w t, x .empty = ⟨.ok w, t, []⟩ ∧ t.IsTree w ∧ s.SameShape v t w

/-- Whether an action, done in the empty store, answers trees that share nothing with the shapes of
values. -/
def RebuildsAll (s : Store) (vs : List Value) (x : Action ε (List Value)) : Prop :=
  ∃ ws t, x .empty = ⟨.ok ws, t, []⟩ ∧ t.IsForest ws ∧
    List.Forall₂ (fun v w => s.SameShape v t w) vs ws

/-- What is built later does not touch the tree that was built first. -/
lemma Rebuilds.cons {v : Value} {vs : List Value} {x : Action ε Value} {y : Action ε (List Value)}
    (hx : Rebuilds s v x) (hy : RebuildsAll s vs y)
    (hplaced : ∀ base : Store, Placed base (List.map base.move) y y) :
    RebuildsAll s (v :: vs) (do return (← x) :: (← y)) := by
  obtain ⟨w, t, hx, htree, hshape⟩ := hx
  obtain ⟨ws, u, hy, hforest, hshapes⟩ := hy
  have hyt := hplaced t .empty
  rw [t.above_empty, hy] at hyt
  refine ⟨w :: ws.map t.move, t.above u, ?_, hforest.cons htree, .cons ?_ ?_⟩
  · simp only [Action.bind_apply, hx, hyt]
    rfl
  · exact hshape.later htree.inside (t.extends_above u)
  · rw [List.forall₂_map_right_iff]
    exact hshapes.imp fun _ _ h => h.move t

/-- Values that are rebuilt one after another share nothing. -/
lemma rebuildsAll_mapM {γ : Type} {f : γ → Action ε Value} {vs : List Value} {cs : List γ}
    (hplaced : ∀ (base : Store) c, Placed base base.move (f c) (f c))
    (h : List.Forall₂ (fun v c => Rebuilds s v (f c)) vs cs) : RebuildsAll s vs (cs.mapM f) := by
  induction h with
  | nil => exact ⟨[], .empty, rfl, .nil _, .nil⟩
  | @cons v c vs cs hv _ ih =>
    rw [List.mapM_cons]
    refine hv.cons ih fun base => ?_
    have hrest := Placed.mapM (g := id) (k := base.move) (hplaced base) cs
    rwa [List.map_id] at hrest

/-- A list is rebuilt around its rebuilt elements. -/
lemma rebuilds_list [Allocator] {r : Ref} (hr : s.Acyclic (.list r))
    (h : ∀ v ∈ s.items r, Rebuilds s v (eval (v.literal s))) :
    Rebuilds s (.list r) (eval ((Value.list r).literal s)) := by
  have hitems : List.Forall₂ (fun v l => Rebuilds s v (eval l)) (s.items r)
      ((s.items r).map (Value.literal s)) := by
    rw [List.forall₂_map_right_iff, List.forall₂_same]
    exact h
  obtain ⟨ws, t, heval, hforest, hshapes⟩ :=
    rebuildsAll_mapM placed_eval hitems
  have hchildren : (t.alloc (.list ws)).2.children (.list ⟨t.size⟩) = ws := t.items_alloc_self ws
  refine ⟨.list ⟨t.size⟩, (t.alloc (.list ws)).2, ?_, hforest.alloc rfl hchildren,
    hforest.sameShape_alloc hchildren ?_ hshapes⟩
  · rw [Value.literal_list hr, eval, evalItems_eq_mapM]
    simp only [Action.bind_apply, heval, newList_apply, List.append_nil]
  · rw [Store.label, Store.label, Store.items_alloc_self, hshapes.length_eq]

/-- The value of an entry is read after its key. -/
lemma rebuilds_entry [Allocator] {k : Key} {v : Value} (h : Rebuilds s v (eval (v.literal s))) :
    Rebuilds s v (eval k.literal >>= fun _ => eval (v.literal s)) := by
  obtain ⟨w, t, heval, htree, hshape⟩ := h
  obtain ⟨u, hkey⟩ := eval_key k .empty
  have hplaced := placed_eval u (v.literal s) .empty
  rw [u.above_empty, heval] at hplaced
  refine ⟨u.move w, u.above t, ?_, htree.move u, hshape.move u⟩
  simp only [Action.bind_apply, hkey, hplaced]
  rfl

/-- Pairs with keys in order are stored one behind another. -/
lemma evalPairs_eq_mapM [Allocator] (map es : Entries Value)
    (hincreasing : (map.keys ++ es.keys).Pairwise fun k l => k.compare l = .lt)
    (hcanonical : ∀ k ∈ es.keys, Key.ofValue? k.toValue = some k) :
    evalPairs map (es.map fun e => .array [e.1.literal, e.2.literal s]) =
      (fun vs => map ++ es.keys.zip vs) <$>
        es.mapM fun e => eval e.1.literal >>= fun _ => eval (e.2.literal s) := by
  induction es generalizing map with
  | nil =>
    rw [List.map_nil, evalPairs, List.mapM_nil]
    simp
  | cons e es ih =>
    obtain ⟨k, v⟩ := e
    have hkey : ∀ t, (eval k.literal t).result = .ok k.toValue := by
      intro t
      obtain ⟨u, hu⟩ := eval_key k t
      rw [hu]
    obtain ⟨hk, hes⟩ := List.forall_mem_cons.1 hcanonical
    have hcheck : (Action.check fun _ => (Key.ofValue k.toValue).mapError LiteralError.fault) =
        pure k := by
      rw [Key.ofValue, hk]
      rfl
    have hinsert : ∀ a, map.insert k a = map ++ [(k, a)] := by
      refine Entries.insert_eq_concat fun l hl => ?_
      exact (List.pairwise_append.1 hincreasing).2.2 l hl k List.mem_cons_self
    have hrest : ∀ a, evalPairs (map ++ [(k, a)])
        (es.map fun e => .array [e.1.literal, e.2.literal s]) =
          (fun vs => map ++ (k, a) :: (Entries.keys es).zip vs) <$>
            es.mapM fun e => eval e.1.literal >>= fun _ => eval (e.2.literal s) := by
      intro a
      rw [ih (map ++ [(k, a)]) (by simpa [Entries.keys] using hincreasing) hes]
      simp
    rw [List.map_cons, evalPairs, Action.bind_congr_of_ok hkey, hcheck, List.mapM_cons]
    simp only [pure_bind, hinsert, hrest]
    simp [Entries.keys]

/-- A map is rebuilt around its rebuilt values; its keys come in order, so none replaces another. -/
lemma rebuilds_map [Allocator] {r : Ref} (hr : s.Acyclic (.map r))
    (hkeys : MapChange.WellKeyed (s.entries r))
    (h : ∀ v ∈ s.children (.map r), Rebuilds s v (eval (v.literal s))) :
    Rebuilds s (.map r) (eval ((Value.map r).literal s)) := by
  have hentries : List.Forall₂
      (fun v (e : Key × Value) => Rebuilds s v (eval e.1.literal >>= fun _ => eval (e.2.literal s)))
      (s.children (.map r)) (s.entries r) := by
    rw [Store.children, List.forall₂_map_left_iff, List.forall₂_same]
    exact fun e he => rebuilds_entry (h e.2 (List.mem_map_of_mem he))
  obtain ⟨ws, t, heval, hforest, hshapes⟩ := rebuildsAll_mapM
    (fun base e => .bind (placed_eval base e.1.literal) fun _ => placed_eval base (e.2.literal s))
    hentries
  have hlength : (s.entries r).keys.length = ws.length := by
    rw [← hshapes.length_eq, Store.children, Entries.keys, List.length_map, List.length_map]
  have hnew : (t.alloc (.map ((s.entries r).keys.zip ws))).2.entries ⟨t.size⟩ =
      (s.entries r).keys.zip ws := by
    rw [Store.entries, Store.cell?_alloc_self]
  have hchildren : (t.alloc (.map ((s.entries r).keys.zip ws))).2.children (.map ⟨t.size⟩) =
      ws := by
    rw [Store.children, hnew, List.map_snd_zip (Nat.le_of_eq hlength.symm)]
  refine ⟨.map ⟨t.size⟩, (t.alloc (.map ((s.entries r).keys.zip ws))).2, ?_,
    hforest.alloc rfl hchildren, hforest.sameShape_alloc hchildren ?_ hshapes⟩
  · have htag : Tag.ofKey "$map" = .map := rfl
    have hpairs := evalPairs_eq_mapM (s := s) [] (s.entries r) hkeys.increasing hkeys.canonical
    rw [Value.literal_map hr, eval_tagged, htag]
    simp only [hpairs, Action.bind_apply, Action.map_apply, heval, newMap_apply, Except.map,
      List.nil_append, List.append_nil]
  · rw [Store.label, Store.label, hnew]
    exact congrArg Label.map (List.map_fst_zip (Nat.le_of_eq hlength)).symm

lemma rebuilds_byteArray [Allocator] (r : Ref) :
    Rebuilds s (.byteArray r) (eval ((Value.byteArray r).literal s)) := by
  rw [Value.literal, Value.view, Value.viewBelow, Datum.literal]
  refine ⟨_, _, eval_byteArray (s.data r) .empty, .leaf rfl fun q hq => ?_, .leaf ?_ rfl rfl⟩
  · cases hq
    rw [Store.size_alloc]
    exact Nat.lt_succ_self _
  · rw [Store.label, Store.label, Store.data, Store.data, Store.cell?_alloc_self]

/-- A value that is no container is rebuilt as itself. -/
lemma rebuilds_scalar [Allocator] {v : Value} (hv : v.ref? = none) :
    Rebuilds s v (eval (v.literal s)) := by
  obtain ⟨t, heval⟩ := eval_scalar hv s .empty
  have hnode : v.node? = none := by cases v <;> simp_all [Value.node?, Value.ref?]
  refine ⟨v, t, heval, .leaf hnode fun r hr => ?_, .leaf ?_ hnode hnode⟩
  · rw [hv] at hr
    cases hr
  · cases v <;> simp_all [Store.label, Value.ref?]

variable {v : Value}

/-- The literal of a value without cycles rebuilds it, by induction on what is below it. -/
lemma rebuilds [Allocator] (hs : s.Keyed) (hv : s.Acyclic v) :
    Rebuilds s v (eval (v.literal s)) := by
  refine hv.induction ?_
  intro v hv hchildren
  cases v with
  | list r => exact rebuilds_list hv hchildren
  | map r => exact rebuilds_map hv (hs.entries r) hchildren
  | byteArray r => exact rebuilds_byteArray r
  | _ => exact rebuilds_scalar rfl

/-- The literal of an acyclic value evaluates in every store, without reports, to a value with the
same labels along the same paths. No container that was there is changed, and every list, map and
byte array of the value is new and reached by one path. The maps of the value are well keyed, as
all maps are that a program makes. -/
theorem eval_literal_rebuilds [Allocator] (hs : s.Keyed) (hv : s.Acyclic v) (t : Store) :
    ∃ w u, eval (v.literal s) t = ⟨.ok w, u, []⟩ ∧ t.Extends u ∧
      (∀ p, (u.follow w p).map u.label = (s.follow v p).map s.label) ∧
      (∀ p r, u.refAt w p = some r → t.size ≤ r.index ∧ r.index < u.size) ∧
      ∀ p q r, u.refAt w p = some r → u.refAt w q = some r → p = q := by
  obtain ⟨w, u, heval, htree, hshape⟩ := rebuilds hs hv
  have hplaced := placed_eval t (v.literal s) .empty
  rw [t.above_empty, heval] at hplaced
  refine ⟨t.move w, t.above u, hplaced, t.extends_above u, fun p => (hshape.move t p).symm,
    fun p r hr => ⟨?_, (htree.move t).inside p r hr⟩, fun p q r => (htree.move t).unique⟩
  rw [(t.embeds_above u).refAt, Option.map_eq_some_iff] at hr
  obtain ⟨r', -, rfl⟩ := hr
  exact Nat.le_add_right _ _

section

attribute [local instance] Platform.standard

/-- A map with a key of each kind, one of them like a tag, that holds one list twice. -/
theorem eval_literal_rebuilds_shared_rows :
    let rows : Store := ⟨#[.list [.nil, .float ⟨0x3fe0000000000000⟩], .byteArray [0, 255], .map []]⟩
    let s := MapChange.runAll ⟨2⟩ rows [.insert (.bytes [255]) (.bytes [7]),
      .setItem (.str "$nil") (.list ⟨0⟩), .setItemStrict (.float .one) (.byteArray ⟨1⟩),
      .insert .nil (.list ⟨0⟩), .insert (.float ⟨0x3fe0000000000000⟩) (.bool true)]
    let v : Value := .map ⟨2⟩
    s.Keyed ∧ s.Acyclic v ∧
      ∃ w u, eval (v.literal s) s = ⟨.ok w, u, []⟩ ∧ s.Extends u ∧
        (∀ p, (u.follow w p).map u.label = (s.follow v p).map s.label) ∧
        (∀ p r, u.refAt w p = some r → s.size ≤ r.index ∧ r.index < u.size) ∧
        ∀ p q r, u.refAt w p = some r → u.refAt w q = some r → p = q := by
  intro rows s v
  have hrows : rows.Made := ((Store.Made.empty.newList _).newByteArray _).newMap
  have hs : s.Keyed := (hrows.runAll _ _).keyed
  have hv : s.Acyclic v := Store.Layered.acyclic (by decide +kernel) v
  exact ⟨hs, hv, eval_literal_rebuilds hs hv s⟩

end

end Literal

end Dynval
