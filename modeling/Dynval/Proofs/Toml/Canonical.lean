import Dynval.Proofs.Key.Entries
import Dynval.Toml.Basic

/-!
# Canonical TOML values

In a canonical value the entries of every table are in the order of their keys, and no key stands
twice. A table is put together as a map with text keys is.
-/

namespace Dynval.Toml

/-- Whether the keys of all tables in a value increase. -/
inductive InKeyOrder : Toml → Prop
  | string (s : String) : InKeyOrder (.string s)
  | integer (i : Int64) : InKeyOrder (.integer i)
  | float (x : Binary64) : InKeyOrder (.float x)
  | boolean (b : Bool) : InKeyOrder (.boolean b)
  | datetime (text : String) : InKeyOrder (.datetime text)
  | array {items : List Toml} (hitems : ∀ v ∈ items, InKeyOrder v) : InKeyOrder (.array items)
  | table {entries : List (String × Toml)}
      (hkeys : entries.Pairwise fun e f => Text.compare e.1 f.1 = .lt)
      (hentries : ∀ e ∈ entries, InKeyOrder e.2) : InKeyOrder (.table entries)

/-- The entries of a table as those of a map. -/
def keyed (entries : List (String × Toml)) : Entries Toml :=
  entries.map fun e => (.str e.1, e.2)

lemma increasing_keyed_iff {entries : List (String × Toml)} :
    (keyed entries).Increasing ↔ entries.Pairwise fun e f => Text.compare e.1 f.1 = .lt := by
  rw [Entries.Increasing, Entries.keys, keyed, List.map_map, List.pairwise_map]
  rfl

/-- Entries of tables are inserted as entries of maps are. -/
lemma keyed_insertEntry (key : String) (v : Toml) (entries : List (String × Toml)) :
    keyed (insertEntry key v entries) = (keyed entries).insert (.str key) v := by
  induction entries with
  | nil => rfl
  | cons e entries ih =>
    obtain ⟨k, w⟩ := e
    have hcompare : (Key.str key).compare (.str k) = Text.compare key k := rfl
    simp only [keyed] at ih
    simp only [insertEntry, keyed, List.map_cons, Entries.insert, hcompare]
    cases Text.compare key k <;> simp [ih]

lemma values_keyed (entries : List (String × Toml)) :
    (keyed entries).map Prod.snd = entries.map Prod.snd := by
  rw [keyed, List.map_map]
  rfl

namespace InKeyOrder

/-- Inserting an entry keeps a table in order. -/
lemma insertEntry {entries : List (String × Toml)} {v : Toml} (h : InKeyOrder (.table entries))
    (key : String) (hv : InKeyOrder v) : InKeyOrder (.table (insertEntry key v entries)) := by
  cases h with
  | table hkeys hentries =>
    refine .table ?_ fun e he => ?_
    · rw [← increasing_keyed_iff, keyed_insertEntry]
      exact (increasing_keyed_iff.2 hkeys).insert _ v
    · have hvalue : e.2 ∈ (keyed (Toml.insertEntry key v entries)).map Prod.snd := by
        rw [values_keyed]
        exact List.mem_map_of_mem he
      rw [keyed_insertEntry] at hvalue
      rcases Entries.mem_values_of_mem_insert hvalue with hold | hnew
      · rw [values_keyed, List.mem_map] at hold
        obtain ⟨f, hf, hef⟩ := hold
        exact hef ▸ hentries f hf
      · rwa [hnew]

lemma ofEntries {entries : List (String × Toml)} (h : ∀ e ∈ entries, InKeyOrder e.2) :
    InKeyOrder (ofEntries entries) := by
  unfold Toml.ofEntries
  -- the entries put in so far are in order
  generalize hacc : ([] : List (String × Toml)) = acc
  have hinit : InKeyOrder (.table acc) := hacc ▸ .table .nil (by simp)
  clear hacc
  induction entries generalizing acc with
  | nil => exact hinit
  | cons e entries ih =>
    obtain ⟨he, hentries⟩ := List.forall_mem_cons.1 h
    exact ih hentries _ (hinit.insertEntry e.1 he)

end InKeyOrder

/-- The keys of canonical forms increase, all the way down. -/
lemma inKeyOrder_canonicals :
    (∀ w v, canonical? w = some v → InKeyOrder v) ∧
    (∀ entries es, canonicalEntries? entries = some es → ∀ e ∈ es, InKeyOrder e.2) ∧
    (∀ items vs, canonicalItems? items = some vs → ∀ v ∈ vs, InKeyOrder v) := by
  apply canonical?.mutual_induct
  -- values
  · intro items ih v h
    rw [canonical?] at h
    obtain ⟨vs, hvs, ⟨⟩⟩ := Option.bind_eq_some_iff.1 h
    exact .array (ih vs hvs)
  · rintro _ ⟨⟩
    exact .table .nil (by simp)
  · intro rest s v h
    rw [canonical?, if_pos rfl] at h
    obtain ⟨text, -, rfl⟩ := Option.map_eq_some_iff.1 h
    exact .datetime text
  · intro v rest hv w h
    rw [canonical?.eq_def] at h
    dsimp only at h
    rw [if_pos rfl] at h
    cases v with
    | string s => exact absurd rfl (hv s)
    | _ => cases h
  · intro key v rest hkey ihv ihrest w h
    rw [canonical?.eq_def] at h
    dsimp only at h
    rw [if_neg hkey] at h
    obtain ⟨v', hv', h⟩ := Option.bind_eq_some_iff.1 h
    obtain ⟨es, hes, ⟨⟩⟩ := Option.bind_eq_some_iff.1 h
    exact .ofEntries (List.forall_mem_cons.2 ⟨ihv v' hv', ihrest es hes⟩)
  · intro v harray hempty htable w h
    cases v with
    | array items => exact absurd rfl (harray items)
    | table entries =>
      cases entries with
      | nil => exact absurd rfl hempty
      | cons e rest => exact absurd rfl (htable e.1 e.2 rest)
    | _ =>
      cases h
      constructor
  -- items and entries
  · rintro _ ⟨⟩
    simp
  · intro v rest ihv ihrest vs h
    rw [canonicalItems?] at h
    obtain ⟨v', hv', h⟩ := Option.bind_eq_some_iff.1 h
    obtain ⟨vs', hvs', ⟨⟩⟩ := Option.bind_eq_some_iff.1 h
    exact List.forall_mem_cons.2 ⟨ihv v' hv', ihrest vs' hvs'⟩
  · rintro _ ⟨⟩
    simp
  · intro key v rest ihv ihrest es h
    rw [canonicalEntries?] at h
    obtain ⟨v', hv', h⟩ := Option.bind_eq_some_iff.1 h
    obtain ⟨es', hes', ⟨⟩⟩ := Option.bind_eq_some_iff.1 h
    exact List.forall_mem_cons.2 ⟨ihv v' hv', ihrest es' hes'⟩

end Dynval.Toml
