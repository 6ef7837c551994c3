import Dynval.Proofs.Store.Paths

/-!
# Data without a store

A datum is what a value looks like from outside: containers are spelled out, and a list or map met
inside itself is cut. `Value.view` reads it off a store. The datum of an acyclic value has no cuts:
a list spells out its elements and a map its entries, whatever containers are on the way to them.
-/

namespace Dynval

/-- A value with the contents of its containers. -/
inductive Datum where
  | nil
  | bool (b : Bool)
  | int (i : Int64)
  | float (x : Binary64)
  | str (s : String)
  | list (items : List Datum)
  | map (entries : List (Key × Datum))
  | byteArray (data : List UInt8)
  | bytes (data : List UInt8)
  /-- A list inside itself. -/
  | cutList
  /-- A map inside itself. -/
  | cutMap
deriving Inhabited

/-- The datum of a value, below the containers of `path`. -/
def Value.viewBelow (s : Store) (path : List Ref) : Value → Datum
  | .nil => .nil
  | .bool b => .bool b
  | .int i => .int i
  | .float x => .float x
  | .str t => .str t
  | .bytes data => .bytes data
  | .byteArray r => .byteArray (s.data r)
  | .list r =>
    if _ : r ∈ path then .cutList
    else .list ((s.items r).attach.map fun ⟨v, _⟩ => viewBelow s (r :: path) v)
  | .map r =>
    if _ : r ∈ path then .cutMap
    else .map ((s.entries r).attach.map fun ⟨e, _⟩ => (e.1, viewBelow s (r :: path) e.2))
termination_by unseen s.refs path
decreasing_by
  · exact unseen_cons_lt (Store.mem_refs_of_mem_items ‹_›) ‹_›
  · exact unseen_cons_lt (Store.mem_refs_of_mem_entries ‹_›) ‹_›

def Value.view (s : Store) (v : Value) : Datum :=
  v.viewBelow s []

/-! ### One step into a container -/

namespace Value

/-- A list that is met below itself is cut off. -/
lemma viewBelow_list (s : Store) (path : List Ref) (r : Ref) :
    (Value.list r).viewBelow s path =
      if r ∈ path then .cutList else .list ((s.items r).map (viewBelow s (r :: path))) := by
  rw [viewBelow]
  split_ifs
  · rfl
  · simp

/-- A map that is met below itself is cut off. -/
lemma viewBelow_map (s : Store) (path : List Ref) (r : Ref) :
    (Value.map r).viewBelow s path =
      if r ∈ path then .cutMap
      else .map ((s.entries r).keys.zip
        ((s.children (.map r)).map (viewBelow s (r :: path)))) := by
  rw [viewBelow]
  split_ifs
  · rfl
  · simp only [Store.children, Entries.keys, List.map_map, List.zip_map']
    congr 1
    exact List.attach_map_val (f := fun e : Key × Value => (e.1, viewBelow s (r :: path) e.2))

/-- Containers that are not below an acyclic value do not matter for its datum. -/
lemma viewBelow_eq_viewBelow {s : Store} {v : Value} (hv : s.Acyclic v) :
    ∀ path path' : List Ref, (∀ r ∈ path, ¬ s.Reaches v r) → (∀ r ∈ path', ¬ s.Reaches v r) →
      v.viewBelow s path = v.viewBelow s path' := by
  refine hv.induction ?_
  intro v hv ih path path' hpath hpath'
  have hchildren : ∀ {r}, v.node? = some r →
      (s.children v).map (viewBelow s (r :: path)) =
        (s.children v).map (viewBelow s (r :: path')) := by
    intro r hr
    refine List.map_congr_left fun w hw => ih w hw _ _ ?_ ?_
    · exact List.forall_mem_cons.2 ⟨hv.not_reaches_child hr hw,
        fun q hq h => hpath q hq (h.of_child hw)⟩
    · exact List.forall_mem_cons.2 ⟨hv.not_reaches_child hr hw,
        fun q hq h => hpath' q hq (h.of_child hw)⟩
  have hnew : ∀ {r}, v.node? = some r → r ∉ path ∧ r ∉ path' := fun hr =>
    ⟨fun h => hpath _ h (Store.reaches_of_node? hr),
      fun h => hpath' _ h (Store.reaches_of_node? hr)⟩
  cases v with
  | list r =>
    rw [viewBelow_list, viewBelow_list, if_neg (hnew rfl).1, if_neg (hnew rfl).2]
    exact congrArg Datum.list (hchildren rfl)
  | map r =>
    rw [viewBelow_map, viewBelow_map, if_neg (hnew rfl).1, if_neg (hnew rfl).2, hchildren rfl]
  | _ => simp only [viewBelow]

/-- Below a value without cycles nothing is cut off by the value itself. -/
lemma viewBelow_child {s : Store} {v w : Value} {r : Ref} (hv : s.Acyclic v)
    (hr : v.node? = some r) (hw : w ∈ s.children v) : w.viewBelow s [r] = w.view s := by
  refine viewBelow_eq_viewBelow (hv.child hw) _ _ ?_ (by simp)
  simpa using hv.not_reaches_child hr hw

/-- The datum of a list without cycles holds the data of its elements. -/
lemma view_list {s : Store} {r : Ref} (h : s.Acyclic (.list r)) :
    (Value.list r).view s = .list ((s.items r).map (view s)) := by
  rw [view, viewBelow_list, if_neg List.not_mem_nil]
  exact congrArg Datum.list (List.map_congr_left fun w hw => viewBelow_child h rfl hw)

/-- The datum of a map without cycles holds the data of its values. -/
lemma view_map {s : Store} {r : Ref} (h : s.Acyclic (.map r)) :
    (Value.map r).view s = .map ((s.entries r).map fun e => (e.1, e.2.view s)) := by
  have hchildren : (s.children (.map r)).map (viewBelow s [r]) =
      (s.children (.map r)).map (view s) :=
    List.map_congr_left fun w hw => viewBelow_child h rfl hw
  rw [view, viewBelow_map, if_neg List.not_mem_nil, hchildren]
  simp only [Store.children, Entries.keys, List.map_map, List.zip_map']
  rfl

end Value

end Dynval
