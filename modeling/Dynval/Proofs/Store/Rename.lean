import Dynval.Proofs.Store.Bisimulation

/-!
# Renaming of addresses

A map `f : Ref → Ref` renames the addresses in values and in the contents of containers. It carries
what is below a value of one store to another store when it is one to one there and each container
has its renamed contents at its new address. Then a value and the renamed value cannot be told
apart: following paths, labels and data do not depend on addresses.
-/

namespace Dynval

/-! ### Values, entries and contents -/

def Value.rename (f : Ref → Ref) : Value → Value
  | .list r => .list (f r)
  | .map r => .map (f r)
  | .byteArray r => .byteArray (f r)
  | v => v

namespace Value

variable (f : Ref → Ref)

@[simp] lemma rename_nil : Value.nil.rename f = .nil := rfl

@[simp] lemma rename_bool (b : Bool) : (Value.bool b).rename f = .bool b := rfl

@[simp] lemma rename_int (i : Int64) : (Value.int i).rename f = .int i := rfl

@[simp] lemma rename_float (x : Binary64) : (Value.float x).rename f = .float x := rfl

@[simp] lemma rename_str (t : String) : (Value.str t).rename f = .str t := rfl

@[simp] lemma rename_bytes (data : List UInt8) : (Value.bytes data).rename f = .bytes data := rfl

@[simp] lemma rename_list (r : Ref) : (Value.list r).rename f = .list (f r) := rfl

@[simp] lemma rename_map (r : Ref) : (Value.map r).rename f = .map (f r) := rfl

@[simp] lemma rename_byteArray (r : Ref) : (Value.byteArray r).rename f = .byteArray (f r) := rfl

/-- A renaming changes the address of a list or map and nothing else about it. -/
lemma node?_rename (v : Value) : (v.rename f).node? = v.node?.map f := by
  cases v <;> rfl

lemma ref?_of_node? {v : Value} {r : Ref} (h : v.node? = some r) : v.ref? = some r := by
  cases v <;> simp_all [node?, ref?]

end Value

def Entries.mapValues {α β : Type} (g : α → β) (es : Entries α) : Entries β :=
  es.map fun e => (e.1, g e.2)

namespace Entries

variable {α β : Type} (g : α → β)

@[simp] lemma mapValues_nil : mapValues g ([] : Entries α) = [] := rfl

@[simp] lemma mapValues_cons (k : Key) (a : α) (es : Entries α) :
    mapValues g ((k, a) :: es) = (k, g a) :: mapValues g es := rfl

@[simp] lemma keys_mapValues (es : Entries α) : (es.mapValues g).keys = es.keys := by
  simp [mapValues, keys, Function.comp_def]

@[simp] lemma length_mapValues (es : Entries α) : (es.mapValues g).length = es.length :=
  List.length_map _

lemma map_snd_mapValues (es : Entries α) :
    (es.mapValues g).map Prod.snd = (es.map Prod.snd).map g := by
  simp [mapValues, Function.comp_def]

end Entries

def Cell.rename (f : Ref → Ref) : Cell → Cell
  | .list items => .list (items.map (Value.rename f))
  | .map entries => .map (entries.mapValues (Value.rename f))
  | .byteArray data => .byteArray data

/-! ### Stores -/

namespace Store

variable {s t : Store} {f : Ref → Ref} {v : Value} {r : Ref}

section

variable (h : t.cell? (f r) = (s.cell? r).map (Cell.rename f))

include h

lemma items_of_cell?_rename : t.items (f r) = (s.items r).map (Value.rename f) := by
  rw [items, items, h]
  rcases s.cell? r with _ | (_ | _ | _) <;> rfl

lemma entries_of_cell?_rename : t.entries (f r) = (s.entries r).mapValues (Value.rename f) := by
  rw [entries, entries, h]
  rcases s.cell? r with _ | (_ | _ | _) <;> rfl

lemma data_of_cell?_rename : t.data (f r) = s.data r := by
  rw [data, data, h]
  rcases s.cell? r with _ | (_ | _ | _) <;> rfl

end

section

variable (h : ∀ r, v.ref? = some r → t.cell? (f r) = (s.cell? r).map (Cell.rename f))

include h

/-- What is seen of a value without following references does not depend on addresses. -/
lemma label_rename : t.label (v.rename f) = s.label v := by
  cases v with
  | list r => simp [label, items_of_cell?_rename (h r rfl)]
  | map r => simp [label, entries_of_cell?_rename (h r rfl)]
  | byteArray r => simp [label, data_of_cell?_rename (h r rfl)]
  | _ => rfl

lemma children_rename : t.children (v.rename f) = (s.children v).map (Value.rename f) := by
  cases v with
  | list r => simp [children, items_of_cell?_rename (h r rfl)]
  | map r =>
    rw [Value.rename_map, children, children, entries_of_cell?_rename (h r rfl),
      Entries.map_snd_mapValues]
  | _ => rfl

end

/-- The container at the end of a path. -/
def refAt (s : Store) (v : Value) (p : List Nat) : Option Ref :=
  (s.follow v p).bind Value.ref?

lemma refAt_of_follow {w : Value} {p : List Nat} (hp : s.follow v p = some w) :
    s.refAt v p = w.ref? := by
  rw [refAt, hp, Option.bind_some]

/-- Whether a renaming carries what is below a value to another store: containers that are not one
do not become one, and each has its renamed contents at its new address. -/
structure Carries (s t : Store) (v : Value) (f : Ref → Ref) : Prop where
  oneToOne : ∀ {p q r r'}, s.refAt v p = some r → s.refAt v q = some r' → f r = f r' → r = r'
  cell? : ∀ {p r}, s.refAt v p = some r → t.cell? (f r) = (s.cell? r).map (Cell.rename f)

namespace Carries

/-- The values below `v` and what they are renamed to. -/
def Renamed (s : Store) (v : Value) (f : Ref → Ref) (a b : Value) : Prop :=
  ∃ p, s.follow v p = some a ∧ b = a.rename f

lemma renamed_self (s : Store) (v : Value) (f : Ref → Ref) : Renamed s v f v (v.rename f) :=
  ⟨[], rfl, rfl⟩

/-- No path tells a value from its renaming. -/
lemma bisimulation (h : s.Carries t v f) : s.Bisimulation t (Renamed s v f) := by
  have hcell : ∀ {p a}, s.follow v p = some a →
      ∀ r, a.ref? = some r → t.cell? (f r) = (s.cell? r).map (Cell.rename f) := by
    intro p a hp r hr
    exact h.cell? ((refAt_of_follow hp).trans hr)
  refine ⟨?_, ?_, ?_⟩
  · rintro a _ ⟨p, hp, rfl⟩
    exact (label_rename (hcell hp)).symm
  · rintro a _ ⟨p, hp, rfl⟩
    rw [children_rename (hcell hp), List.forall₂_map_right_iff, List.forall₂_same]
    intro w hw
    obtain ⟨i, hi⟩ := List.mem_iff_getElem?.1 hw
    refine ⟨p ++ [i], ?_, rfl⟩
    rw [follow_append, hp, Option.bind_some, follow_cons, hi]
    rfl
  · rintro a _ a' _ ⟨p, hp, rfl⟩ ⟨p', hp', rfl⟩
    rw [Value.node?_rename, Value.node?_rename]
    refine ⟨congrArg _, fun heq => ?_⟩
    cases ha : a.node? with
    | none => rwa [ha, Option.map_none, eq_comm, Option.map_eq_none_iff, eq_comm] at heq
    | some r =>
      rw [ha, Option.map_some, eq_comm, Option.map_eq_some_iff] at heq
      obtain ⟨r', ha', heq⟩ := heq
      have hr := (refAt_of_follow hp).trans (Value.ref?_of_node? ha)
      have hr' := (refAt_of_follow hp').trans (Value.ref?_of_node? ha')
      rw [ha', h.oneToOne hr' hr heq]

/-- Renaming does not change the datum of a value. -/
lemma view_rename (h : s.Carries t v f) : (v.rename f).view t = v.view s :=
  (h.bisimulation.view_eq (renamed_self s v f)).symm

end Carries

/-- Whether a one-to-one renaming takes each container of a store to one of another store that has
its renamed contents. -/
structure Embeds (s t : Store) (f : Ref → Ref) : Prop where
  injective : Function.Injective f
  cell? : ∀ r, t.cell? (f r) = (s.cell? r).map (Cell.rename f)

namespace Embeds

variable (h : s.Embeds t f)

include h

lemma items (r : Ref) : t.items (f r) = (s.items r).map (Value.rename f) :=
  items_of_cell?_rename (h.cell? r)

lemma entries (r : Ref) : t.entries (f r) = (s.entries r).mapValues (Value.rename f) :=
  entries_of_cell?_rename (h.cell? r)

lemma data (r : Ref) : t.data (f r) = s.data r :=
  data_of_cell?_rename (h.cell? r)

lemma contents (r : Ref) : t.contents (f r) = (s.contents r).rename f := by
  rw [Store.contents, Store.contents, h.cell?]
  cases s.cell? r <;> rfl

/-- A renaming of the whole store carries everything below any value. -/
lemma carries (v : Value) : s.Carries t v f :=
  ⟨fun _ _ heq => h.injective heq, fun {_ r} _ => h.cell? r⟩

/-- A datum does not depend on addresses. -/
lemma view (v : Value) : (v.rename f).view t = v.view s :=
  (h.carries v).view_rename

end Embeds

end Store

end Dynval
