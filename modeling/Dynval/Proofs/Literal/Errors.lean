import Mathlib.Logic.Relation
import Dynval.Platform
import Dynval.Proofs.Literal.Eval
import Dynval.Proofs.Subscript.Policy
import Dynval.Proofs.Toml.Canonical

/-!
# What is wrong with a literal

A literal is wrong at every date in it, at every tag that means nothing, and where a tag is given
something it has no use for (`Literal.Wrong`); only what stands under `$nil` does not matter
(`Literal.Within`). `Literal.errors` lists these places in the order of evaluation, and evaluation
fails with the first of them, or gives a value when there are none.
-/

namespace Dynval

namespace Action

variable {ε δ α β : Type} {x : Action ε α} {f : α → Action ε β} {es fs : List ε}
  {P : α → Prop} {Q : β → Prop}

/-! ### The first error -/

/-- Whether an action fails with the first of some errors, or answers as it should if there are
none. -/
def Stops (x : Action ε α) (es : List ε) (P : α → Prop) : Prop :=
  ∀ s, (∃ a, (x s).result = .ok a ∧ es = [] ∧ P a) ∨
    ∃ e, (x s).result = .error e ∧ es.head? = some e

namespace Stops

lemma pure {a : α} (h : P a) : (Pure.pure a : Action ε α).Stops [] P :=
  fun _ => Or.inl ⟨a, rfl, rfl, h⟩

lemma fail (e : ε) (es : List ε) : (Action.fail e : Action ε α).Stops (e :: es) P :=
  fun _ => Or.inr ⟨e, rfl, rfl⟩

/-- The errors of a second action come behind those of the first. -/
lemma bind (hx : x.Stops es P) (hf : ∀ a, P a → (f a).Stops fs Q) :
    (x >>= f).Stops (es ++ fs) Q := by
  intro s
  rcases hx s with ⟨a, ha, rfl, hP⟩ | ⟨e, he, hes⟩
  · rw [bind_of_ok ha, List.nil_append]
    exact hf a hP (x s).store
  · rw [bind_of_error he]
    exact Or.inr ⟨e, rfl, by rw [List.head?_append, hes, Option.some_or]⟩

/-- A second action that cannot fail. -/
lemma bind_nil (hx : x.Stops es P) (hf : ∀ a, P a → (f a).Stops [] Q) : (x >>= f).Stops es Q := by
  have hbind := hx.bind hf
  rwa [List.append_nil] at hbind

/-- Renaming errors keeps which of them comes first. -/
lemma mapError (hx : x.Stops es P) (g : ε → δ) : (x.mapError g).Stops (es.map g) P := by
  intro s
  rcases hx s with ⟨a, ha, rfl, hP⟩ | ⟨e, he, hes⟩
  · exact Or.inl ⟨a, mapError_ok_iff.2 ha, rfl, hP⟩
  · exact Or.inr ⟨g e, mapError_of_error he g, by rw [List.head?_map, hes]; rfl⟩

lemma of_succeeds (hx : x.Succeeds) : x.Stops [] fun _ => True :=
  fun s => (hx s).elim fun a ha => Or.inl ⟨a, ha, rfl, trivial⟩

lemma newList {P : Value → Prop} {items : List Value} (h : ∀ r, P (.list r)) :
    (Dynval.newList items : Action ε Value).Stops [] P :=
  fun _ => Or.inl ⟨_, rfl, rfl, h _⟩

lemma newMap {P : Value → Prop} {entries : Entries Value} (h : ∀ r, P (.map r)) :
    (Dynval.newMap entries : Action ε Value).Stops [] P :=
  fun _ => Or.inl ⟨_, rfl, rfl, h _⟩

lemma newByteArray {P : Value → Prop} {data : List UInt8} (h : ∀ r, P (.byteArray r)) :
    (Dynval.newByteArray data : Action ε Value).Stops [] P :=
  fun _ => Or.inl ⟨_, rfl, rfl, h _⟩

/-- An action without errors to stop at succeeds. -/
lemma ok_iff (hx : x.Stops es P) {s : Store} : (∃ a, (x s).result = .ok a) ↔ es = [] := by
  rcases hx s with ⟨a, ha, hnil, -⟩ | ⟨e, he, hhead⟩
  · exact ⟨fun _ => hnil, fun _ => ⟨a, ha⟩⟩
  · rw [he]
    exact ⟨nofun, by rintro rfl; cases hhead⟩

/-- An action stops at the first of its errors. -/
lemma error_iff (hx : x.Stops es P) {s : Store} {e : ε} :
    (x s).result = .error e ↔ es.head? = some e := by
  rcases hx s with ⟨a, ha, hnil, -⟩ | ⟨e', he', hhead⟩
  · rw [ha, hnil]
    exact ⟨nofun, nofun⟩
  · rw [he', hhead, Except.error.injEq, Option.some.injEq]

end Stops

lemma Succeeds.mapM {f : β → Action ε α} (hf : ∀ b, (f b).Succeeds) (bs : List β) :
    (bs.mapM f).Succeeds := by
  induction bs with
  | nil => exact .pure []
  | cons b bs ih =>
    rw [List.mapM_cons]
    exact .bind (hf b) fun a => .bind ih fun as => .pure _

end Action

/-- The kind of value that a table with one key stands for. -/
def Tag.kind? : Tag → Option Kind
  | .nil => some .nil
  | .bytes => some .bytes
  | .byteArray => some .byteArray
  | .unknown => Option.none
  | .map | .none => some .map

namespace Literal

open Sequence (repeatCount)

/-! ### The errors of a literal -/

/-- The kind of value that a literal stands for, if it stands for one. -/
def kind? : Toml → Option Kind
  | .string _ => some .str
  | .integer _ => some .int
  | .float _ => some .float
  | .boolean _ => some .bool
  | .datetime _ => none
  | .array _ => some .list
  | .table [(key, _)] => (Tag.ofKey key).kind?
  | .table _ => some .map

def integer? : Toml → Option Int64
  | .integer n => some n
  | .boolean b => some (boolInt b)
  | _ => none

/-- The fault of a literal that stands for a value of one of some kinds. -/
def kindFaults (kinds : List Kind) (fault : Kind → Fault) (v : Toml) : List Fault :=
  match kind? v with
  | some kind => if kind ∈ kinds then [fault kind] else []
  | none => []

/-- Why the value of a literal cannot be a key. -/
def keyFaults : Toml → List Fault :=
  kindFaults [.list, .map, .byteArray] fun kind => ⟨.hash, .unhashable kind⟩

/-- Why the value of a literal cannot be turned into bytes: it is a length for which there is no
room, or of a kind without bytes. -/
def byteFaults [Allocator] (op : Operation) (v : Toml) : List Fault :=
  match integer? v with
  | some n =>
    if Allocator.reserves .byte (repeatCount n) then []
    else [.of op (.cannotAllocate (repeatCount n))]
  | none => kindFaults [.nil, .float, .map] (fun kind => .of op (.notByteSource kind)) v

/-- A literal is at fault for its kind, if it has one of the given kinds. -/
lemma mem_kindFaults_iff {kinds : List Kind} {fault : Kind → Fault} {v : Toml} {f : Fault} :
    f ∈ kindFaults kinds fault v ↔ ∃ kind, kind? v = some kind ∧ kind ∈ kinds ∧ f = fault kind := by
  unfold kindFaults
  cases kind? v with
  | none => simp
  | some kind =>
    simp only [List.mem_ite_nil_right, List.mem_singleton, Option.some.injEq, exists_eq_left']

/-- Bytes cannot be made of a kind without bytes, or of a length without room. -/
lemma mem_byteFaults_iff [Allocator] {op : Operation} {v : Toml} {f : Fault} : f ∈ byteFaults op v ↔
    (∃ kind, kind? v = some kind ∧ kind ∈ [.nil, .float, .map] ∧
      f = .of op (.notByteSource kind)) ∨
    ∃ n, integer? v = some n ∧ Allocator.reserves .byte (repeatCount n) = false ∧
      f = .of op (.cannotAllocate (repeatCount n)) := by
  cases v with
  | integer n | boolean b => simp [byteFaults, integer?, kind?]
  | _ => simp [byteFaults, integer?, mem_kindFaults_iff]

lemma sizeOf_item_lt {v : Toml} {items : List Toml} (h : v ∈ items) :
    sizeOf v < sizeOf (Toml.array items) := by
  have hlt := List.sizeOf_lt_of_mem h
  simp only [Toml.array.sizeOf_spec]
  omega

lemma sizeOf_entry_lt {e : String × Toml} {entries : List (String × Toml)} (h : e ∈ entries) :
    sizeOf e.2 < sizeOf (Toml.table entries) := by
  have hlt := List.sizeOf_lt_of_mem h
  cases e
  simp only [Toml.table.sizeOf_spec, Prod.mk.sizeOf_spec] at hlt ⊢
  omega

lemma sizeOf_payload_lt (key : String) (payload : Toml) :
    sizeOf payload < sizeOf (Toml.table [(key, payload)]) :=
  sizeOf_entry_lt (e := (key, payload)) List.mem_cons_self

lemma sizeOf_pair_lt {key : String} {v : Toml} {pairs : List Toml} (h : v ∈ pairs) :
    sizeOf v < sizeOf (Toml.table [(key, .array pairs)]) :=
  (sizeOf_item_lt h).trans (sizeOf_payload_lt key _)

/-- All that is wrong with a literal, in the order of evaluation: arrays from left to right, tables
in the order of their entries. A tag that means nothing and a map without pairs are wrong before
anything in them, bytes and byte arrays after it. Of a pair first its form is checked, then its key,
then whether that can be a key, then its value. -/
def errors [Allocator] : Toml → List LiteralError
  | .datetime text => [.datetime text]
  | .array items => items.flatMap errors
  | .table [(key, payload)] =>
    match Tag.ofKey key with
    | .nil => []
    | .bytes => errors payload ++ (byteFaults .bytes payload).map .fault
    | .byteArray => errors payload ++ (byteFaults .bytearray payload).map .fault
    | .map =>
      match _ : payload with
      | .array pairs => pairs.flatMap fun entry =>
        match _ : entry with
        | .array [key, item] => errors key ++ ((keyFaults key).map .fault ++ errors item)
        | _ => .notPair entry :: errors entry
      | _ => .notPairs :: errors payload
    | .unknown => .unknownTag key :: errors payload
    | .none => errors payload
  | .table entries => entries.flatMap fun e => errors e.2
  | .string _ | .integer _ | .float _ | .boolean _ => []
termination_by v => sizeOf v
decreasing_by
  all_goals subst_vars
  · exact sizeOf_item_lt ‹_›
  · exact sizeOf_payload_lt key payload
  · exact sizeOf_payload_lt key payload
  · exact (sizeOf_item_lt List.mem_cons_self).trans (sizeOf_pair_lt ‹_›)
  · exact (sizeOf_item_lt (List.mem_cons_of_mem _ List.mem_cons_self)).trans (sizeOf_pair_lt ‹_›)
  · exact sizeOf_pair_lt ‹_›
  · exact sizeOf_payload_lt key _
  · exact sizeOf_payload_lt key payload
  · exact sizeOf_payload_lt key payload
  · exact sizeOf_entry_lt ‹_›

def pairErrors [Allocator] : Toml → List LiteralError
  | .array [key, item] => errors key ++ ((keyFaults key).map .fault ++ errors item)
  | entry => .notPair entry :: errors entry

lemma pairErrors_of_ne [Allocator] {entry : Toml} (h : ∀ key item, entry ≠ .array [key, item]) :
    pairErrors entry = .notPair entry :: errors entry := by
  unfold pairErrors
  split
  · exact absurd rfl (h _ _)
  · rfl

/-- What is wrong with a table of one key depends on its tag. -/
lemma errors_tagged [Allocator] (key : String) (payload : Toml) :
    errors (.table [(key, payload)]) =
      match Tag.ofKey key with
      | .nil => []
      | .bytes => errors payload ++ (byteFaults .bytes payload).map .fault
      | .byteArray => errors payload ++ (byteFaults .bytearray payload).map .fault
      | .map =>
        match payload with
        | .array pairs => pairs.flatMap pairErrors
        | _ => .notPairs :: errors payload
      | .unknown => .unknownTag key :: errors payload
      | .none => errors payload := by
  rw [errors.eq_def]
  dsimp only
  cases Tag.ofKey key with
  | map =>
    cases payload with
    | array pairs =>
      refine congrArg (fun f => pairs.flatMap f) (funext fun entry => ?_)
      split
      · rfl
      · exact (pairErrors_of_ne ‹_›).symm
    | _ => rfl
  | _ => rfl

/-! ### Evaluation -/

/-- Whether a value is what can be said about it from its literal. -/
structure Evaluates (L : Toml) (v : Value) : Prop where
  kind : kind? L = some v.kind
  integer : integer? L = v.integer?

/-- Zero bytes fail exactly where there is no room for them. -/
lemma stops_zeroBytes [Allocator] (op : Operation) (n : Int64) :
    (Action.check fun _ => Sequence.zeroBytes op n).Stops
      (if Allocator.reserves .byte (repeatCount n) then []
        else [.of op (.cannotAllocate (repeatCount n))])
      fun _ => True := by
  unfold Sequence.zeroBytes Sequence.reserve
  by_cases hroom : Allocator.reserves .byte (repeatCount n) = true
  · rw [if_pos hroom, if_pos hroom]
    exact .pure trivial
  · rw [if_neg hroom, if_neg hroom]
    exact .fail _ _

/-- A value is turned into bytes unless its kind has none or there is no room for them. -/
lemma stops_bytesFrom [Allocator] {L : Toml} {v : Value} (h : Evaluates L v) (op : Operation) :
    (Sequence.bytesFrom op v).Stops (byteFaults op L) fun _ => True := by
  unfold byteFaults kindFaults
  rw [h.kind, h.integer]
  cases v with
  | list r =>
    refine .of_succeeds (.bind (.query _) fun items => .mapM (fun item => ?_) items)
    exact .bind item.asInt_succeeds fun _ => .pure _
  | byteArray r => exact .of_succeeds (.query _)
  | bytes data => exact .pure trivial
  | str t => exact .pure trivial
  | bool b => exact stops_zeroBytes op _
  | int n => exact stops_zeroBytes op n
  | _ => exact .fail _ _

/-- A value is refused as a key exactly when its literal has a kind of no key. -/
lemma stops_key {L : Toml} {v : Value} (h : Evaluates L v) :
    (Action.check fun _ => (Key.ofValue v).mapError .fault :
      Action LiteralError Key).Stops ((keyFaults L).map .fault) fun _ => True := by
  unfold keyFaults kindFaults
  rw [h.kind]
  cases v with
  | list r => exact .fail _ _
  | map r => exact .fail _ _
  | byteArray r => exact .fail _ _
  | _ => exact .pure trivial

lemma Evaluates.tagged {key : String} {tag : Tag} {payload : Toml} {v : Value}
    (htag : Tag.ofKey key = tag) (hkind : tag.kind? = some v.kind) (hinteger : v.integer? = none) :
    Evaluates (.table [(key, payload)]) v :=
  ⟨by rw [kind?, htag, hkind], hinteger.symm⟩

/-- A table of more or fewer keys than one is a map. -/
lemma kind?_table {entries : List (String × Toml)}
    (h : ∀ key payload, entries ≠ [(key, payload)]) : kind? (.table entries) = some .map := by
  rw [kind?]
  exact h

/-- Evaluation fails with the first error of a literal. -/
lemma stops_evals [Allocator] :
    (∀ L, (eval L).Stops (errors L) (Evaluates L)) ∧
    (∀ map entries, (evalEntries map entries).Stops (entries.flatMap fun e => errors e.2)
      fun _ => True) ∧
    (∀ map pairs, (evalPairs map pairs).Stops (pairs.flatMap pairErrors) fun _ => True) ∧
    (∀ items, (evalItems items).Stops (items.flatMap errors) fun _ => True) := by
  apply eval.mutual_induct
  -- scalars and arrays
  · intro s
    rw [eval, errors]
    exact .pure ⟨rfl, rfl⟩
  · intro i
    rw [eval, errors]
    exact .pure ⟨rfl, rfl⟩
  · intro x
    rw [eval, errors]
    exact .pure ⟨rfl, rfl⟩
  · intro b
    rw [eval, errors]
    exact .pure ⟨rfl, rfl⟩
  · intro text
    rw [eval, errors]
    exact .fail _ _
  · intro items ih
    rw [eval, errors]
    exact ih.bind_nil fun vs _ => .newList fun r => ⟨rfl, rfl⟩
  -- tables with one key, by its tag, and other tables
  · intro key payload htag
    rw [eval_tagged, errors_tagged, htag]
    exact .pure (.tagged htag rfl rfl)
  · intro key payload htag ih
    rw [eval_tagged, errors_tagged, htag]
    refine ih.bind fun v hv => .mapError ?_ _
    exact (stops_bytesFrom hv .bytes).bind_nil fun data _ => .pure (.tagged htag rfl rfl)
  · intro key payload htag ih
    rw [eval_tagged, errors_tagged, htag]
    refine ih.bind fun v hv => .mapError ?_ _
    exact (stops_bytesFrom hv .bytearray).bind_nil fun data _ =>
      .newByteArray fun r => .tagged htag rfl rfl
  · intro key htag pairs ih
    rw [eval_tagged, errors_tagged, htag]
    exact ih.bind_nil fun map _ => .newMap fun r => .tagged htag rfl rfl
  · intro key payload htag hpairs
    rw [eval_tagged, errors_tagged, htag]
    cases payload with
    | array pairs => exact absurd rfl (hpairs pairs)
    | _ => exact .fail _ _
  · intro key payload htag
    rw [eval_tagged, errors_tagged, htag]
    exact .fail _ _
  · intro key payload htag ih
    rw [eval_tagged, errors_tagged, htag]
    exact ih.bind_nil fun v _ => .newMap fun r => .tagged htag rfl rfl
  · intro entries hentries ih
    rw [eval, errors]
    · exact ih.bind_nil fun map _ => .newMap fun r => ⟨kind?_table hentries, rfl⟩
    · exact hentries
    · exact hentries
  -- pairs
  · intro map
    rw [evalPairs]
    exact .pure trivial
  · intro map key item rest ihkey ihitem ihrest
    rw [evalPairs, List.flatMap_cons, pairErrors, List.append_assoc, List.append_assoc]
    refine ihkey.bind fun k hk => (stops_key hk).bind fun key _ => ?_
    exact ihitem.bind fun v _ => ihrest key v
  · intro map entry rest hentry
    rw [evalPairs, List.flatMap_cons, pairErrors_of_ne]
    · exact .fail _ _
    · exact hentry
    · exact hentry
  -- items and entries
  · rw [evalItems]
    exact .pure trivial
  · intro item rest ihitem ihrest
    rw [evalItems, List.flatMap_cons]
    exact ihitem.bind fun v _ => ihrest.bind_nil fun vs _ => .pure trivial
  · intro map
    rw [evalEntries]
    exact .pure trivial
  · intro map key item rest ihitem ihrest
    rw [evalEntries, List.flatMap_cons]
    exact ihitem.bind fun v _ => ihrest v

/-! ### Places -/

/-- Whether a literal stands directly in another; what stands under `$nil` does not count. -/
inductive Part : Toml → Toml → Prop
  | item {v : Toml} {items : List Toml} (h : v ∈ items) : Part v (.array items)
  | entry {key : String} {v : Toml} {entries : List (String × Toml)} (h : (key, v) ∈ entries)
      (hnil : entries ≠ [("$nil", v)]) : Part v (.table entries)

/-- Whether a literal stands in another. -/
def Within : Toml → Toml → Prop :=
  Relation.ReflTransGen Part

/-- The tags of bytes and byte arrays, with the operations that make these. -/
def byteTags : List (String × Operation) :=
  [("$bytes", .bytes), ("$bytearray", .bytearray)]

/-- What is wrong with a literal, apart from what stands in it. A key or a payload is judged by its
kind also where it stands for no value, but then an error in it comes first. -/
inductive Wrong [Allocator] : Toml → LiteralError → Prop
  | datetime (text : String) : Wrong (.datetime text) (.datetime text)
  | unknownTag {key : String} {payload : Toml} (hdollar : key.toList.head? = some '$')
      (hkey : key ∉ ["$nil", "$bytes", "$bytearray", "$map"]) :
    Wrong (.table [(key, payload)]) (.unknownTag key)
  | notPairs {payload : Toml} (h : ∀ pairs, payload ≠ .array pairs) :
    Wrong (.table [("$map", payload)]) .notPairs
  | notPair {entry : Toml} {pairs : List Toml} (hmem : entry ∈ pairs)
      (h : ∀ key item, entry ≠ .array [key, item]) :
    Wrong (.table [("$map", .array pairs)]) (.notPair entry)
  | notKey {key item : Toml} {pairs : List Toml} {kind : Kind} (hmem : .array [key, item] ∈ pairs)
      (hkind : kind? key = some kind) (h : kind ∈ [.list, .map, .byteArray]) :
    Wrong (.table [("$map", .array pairs)]) (.fault ⟨.hash, .unhashable kind⟩)
  | notBytes {tag : String} {op : Operation} {payload : Toml} {kind : Kind}
      (htag : (tag, op) ∈ byteTags) (hkind : kind? payload = some kind)
      (h : kind ∈ [.nil, .float, .map]) :
    Wrong (.table [(tag, payload)]) (.fault (.of op (.notByteSource kind)))
  | noRoom {tag : String} {op : Operation} {payload : Toml} {n : Int64}
      (htag : (tag, op) ∈ byteTags) (hn : integer? payload = some n)
      (h : Allocator.reserves .byte (repeatCount n) = false) :
    Wrong (.table [(tag, payload)]) (.fault (.of op (.cannotAllocate (repeatCount n))))

/-- What stands in a literal is smaller. -/
lemma Part.sizeOf_lt {v L : Toml} (h : Part v L) : sizeOf v < sizeOf L := by
  cases h with
  | item h => exact sizeOf_item_lt h
  | entry h => exact sizeOf_entry_lt h

lemma wellFounded_part : WellFounded Part :=
  Subrelation.wf Part.sizeOf_lt (measure (sizeOf : Toml → Nat)).wf

/-- A key with a dollar sign in front is a tag, and means nothing if it is none of the four. -/
lemma ofKey_eq_unknown_iff {key : String} : Tag.ofKey key = .unknown ↔
    key.toList.head? = some '$' ∧ key ∉ ["$nil", "$bytes", "$bytearray", "$map"] := by
  unfold Tag.ofKey
  split_ifs <;> simp_all

lemma eq_of_ofKey {key : String} :
    (Tag.ofKey key = .nil → key = "$nil") ∧ (Tag.ofKey key = .bytes → key = "$bytes") ∧
      (Tag.ofKey key = .byteArray → key = "$bytearray") ∧
      (Tag.ofKey key = .map → key = "$map") := by
  unfold Tag.ofKey
  split_ifs <;> simp_all

/-- Errors in the payload of bytes come before those of its use. -/
lemma errors_byteTag [Allocator] {tag : String} {op : Operation} (htag : (tag, op) ∈ byteTags)
    (payload : Toml) :
    errors (.table [(tag, payload)]) = errors payload ++ (byteFaults op payload).map .fault := by
  rw [errors_tagged]
  simp only [byteTags, List.mem_cons, List.not_mem_nil, or_false, Prod.mk.injEq] at htag
  rcases htag with ⟨rfl, rfl⟩ | ⟨rfl, rfl⟩ <;> rfl

lemma errors_map [Allocator] (pairs : List Toml) :
    errors (.table [("$map", .array pairs)]) = pairs.flatMap pairErrors :=
  errors_tagged "$map" (.array pairs)

/-- What is wrong with a literal itself is among its errors. -/
lemma mem_errors_of_wrong [Allocator] {L : Toml} {e : LiteralError} (h : Wrong L e) :
    e ∈ errors L := by
  cases h with
  | datetime text => simp [errors]
  | unknownTag hdollar hkey =>
    rw [errors_tagged, ofKey_eq_unknown_iff.2 ⟨hdollar, hkey⟩]
    exact List.mem_cons_self
  | @notPairs payload h =>
    rw [errors_tagged, show Tag.ofKey "$map" = .map from rfl]
    cases payload with
    | array pairs => exact absurd rfl (h pairs)
    | _ => exact List.mem_cons_self
  | notPair hmem h =>
    rw [errors_map, List.mem_flatMap]
    exact ⟨_, hmem, by rw [pairErrors_of_ne h]; exact List.mem_cons_self⟩
  | notKey hmem hkind h =>
    rw [errors_map, List.mem_flatMap]
    refine ⟨_, hmem, List.mem_append_right _ (List.mem_append_left _ ?_)⟩
    exact List.mem_map_of_mem (mem_kindFaults_iff.2 ⟨_, hkind, h, rfl⟩)
  | notBytes htag hkind h =>
    rw [errors_byteTag htag]
    refine List.mem_append_right _ (List.mem_map_of_mem (mem_byteFaults_iff.2 ?_))
    exact Or.inl ⟨_, hkind, h, rfl⟩
  | noRoom htag hn h =>
    rw [errors_byteTag htag]
    refine List.mem_append_right _ (List.mem_map_of_mem (mem_byteFaults_iff.2 ?_))
    exact Or.inr ⟨_, hn, h, rfl⟩

/-- A pair is wrong wherever what stands in it is. -/
lemma errors_subset_pairErrors [Allocator] (entry : Toml) : errors entry ⊆ pairErrors entry := by
  unfold pairErrors
  split
  · rw [errors]
    simp only [List.flatMap_cons, List.flatMap_nil, List.append_nil]
    exact List.append_subset.2 ⟨List.subset_append_left _ _,
      List.Subset.trans (List.subset_append_right _ _) (List.subset_append_right _ _)⟩
  · exact List.subset_cons_self _ _

/-- What is wrong with a part of a literal is wrong with the literal. -/
lemma Part.errors_subset [Allocator] {v L : Toml} (h : Part v L) : errors v ⊆ errors L := by
  cases h with
  | item h =>
    rw [errors]
    exact fun e he => List.mem_flatMap.2 ⟨_, h, he⟩
  | @entry key _ entries h hnil =>
    by_cases hone : ∃ key payload, entries = [(key, payload)]
    · obtain ⟨key, payload, rfl⟩ := hone
      obtain ⟨rfl, rfl⟩ := Prod.mk.inj (List.mem_singleton.1 h)
      rw [errors_tagged]
      cases htag : Tag.ofKey key with
      | nil => exact absurd (eq_of_ofKey.1 htag ▸ rfl) hnil
      | bytes => exact List.subset_append_left _ _
      | byteArray => exact List.subset_append_left _ _
      | map =>
        cases v with
        | array pairs =>
          rw [errors]
          intro e he
          obtain ⟨entry, hentry, he⟩ := List.mem_flatMap.1 he
          exact List.mem_flatMap.2 ⟨entry, hentry, errors_subset_pairErrors entry he⟩
        | _ => exact List.subset_cons_self _ _
      | unknown => exact List.subset_cons_self _ _
      | none => exact List.Subset.refl _
    · push Not at hone
      rw [errors]
      · exact fun e he => List.mem_flatMap.2 ⟨_, h, he⟩
      · exact hone

/-- An error of a pair comes from inside it, or from its form or its key. -/
lemma mem_pairErrors [Allocator] {entry : Toml} {pairs : List Toml} {e : LiteralError}
    (hentry : entry ∈ pairs) (he : e ∈ pairErrors entry) :
    e ∈ errors entry ∨ Wrong (.table [("$map", .array pairs)]) e := by
  by_cases hpair : ∃ key item, entry = .array [key, item]
  · obtain ⟨key, item, rfl⟩ := hpair
    rw [pairErrors, List.mem_append, List.mem_append] at he
    rw [errors]
    simp only [List.flatMap_cons, List.flatMap_nil, List.append_nil, List.mem_append]
    rcases he with he | he | he
    · exact Or.inl (Or.inl he)
    · obtain ⟨f, hf, rfl⟩ := List.mem_map.1 he
      obtain ⟨kind, hkind, hmem, rfl⟩ := mem_kindFaults_iff.1 hf
      exact Or.inr (.notKey hentry hkind hmem)
    · exact Or.inl (Or.inr he)
  · push Not at hpair
    rw [pairErrors_of_ne hpair, List.mem_cons] at he
    rcases he with rfl | he
    · exact Or.inr (.notPair hentry hpair)
    · exact Or.inl he

/-- An error of bytes comes from inside the payload, or from the payload itself. -/
lemma mem_errors_byteTag [Allocator] {tag : String} {op : Operation} (htag : (tag, op) ∈ byteTags)
    {payload : Toml} {e : LiteralError} (he : e ∈ errors (.table [(tag, payload)])) :
    e ∈ errors payload ∨ Wrong (.table [(tag, payload)]) e := by
  rw [errors_byteTag htag, List.mem_append] at he
  refine he.imp_right fun he => ?_
  obtain ⟨f, hf, rfl⟩ := List.mem_map.1 he
  rcases mem_byteFaults_iff.1 hf with ⟨kind, hkind, hmem, rfl⟩ | ⟨n, hn, hroom, rfl⟩
  · exact .notBytes htag hkind hmem
  · exact .noRoom htag hn hroom

/-- An error of a tagged table comes from its payload or from the table itself. -/
lemma part_or_wrong_of_tagged [Allocator] {key : String} {payload : Toml} {e : LiteralError}
    (he : e ∈ errors (.table [(key, payload)])) :
    (Part payload (.table [(key, payload)]) ∧ e ∈ errors payload) ∨
      Wrong (.table [(key, payload)]) e := by
  have hpart : key ≠ "$nil" → Part payload (.table [(key, payload)]) := fun hkey =>
    .entry List.mem_cons_self (by simpa using hkey)
  cases htag : Tag.ofKey key with
  | nil =>
    rw [errors_tagged, htag] at he
    cases he
  | bytes =>
    obtain rfl := eq_of_ofKey.2.1 htag
    exact (mem_errors_byteTag (.head _) he).imp_left (.intro (hpart (by decide)))
  | byteArray =>
    obtain rfl := eq_of_ofKey.2.2.1 htag
    exact (mem_errors_byteTag (.tail _ (.head _)) he).imp_left (.intro (hpart (by decide)))
  | map =>
    obtain rfl := eq_of_ofKey.2.2.2 htag
    cases payload with
    | array pairs =>
      rw [errors_map, List.mem_flatMap] at he
      obtain ⟨entry, hentry, he⟩ := he
      refine (mem_pairErrors hentry he).imp_left fun he => ⟨hpart (by decide), ?_⟩
      rw [errors]
      exact List.mem_flatMap.2 ⟨entry, hentry, he⟩
    | _ =>
      rw [errors_tagged, htag] at he
      rcases List.mem_cons.1 he with rfl | he
      · exact Or.inr (.notPairs (by simp))
      · exact Or.inl ⟨hpart (by decide), he⟩
  | unknown =>
    obtain ⟨hdollar, hkey⟩ := ofKey_eq_unknown_iff.1 htag
    rw [errors_tagged, htag] at he
    rcases List.mem_cons.1 he with rfl | he
    · exact Or.inr (.unknownTag hdollar hkey)
    · exact Or.inl ⟨hpart (by simp_all), he⟩
  | none =>
    have hkey : key ≠ "$nil" := by
      rintro rfl
      cases htag
    rw [errors_tagged, htag] at he
    exact Or.inl ⟨hpart hkey, he⟩

/-- Every error is that of a part or of the literal itself. -/
lemma part_or_wrong_of_mem_errors [Allocator] {L : Toml} {e : LiteralError} (he : e ∈ errors L) :
    (∃ v, Part v L ∧ e ∈ errors v) ∨ Wrong L e := by
  cases L with
  | datetime text =>
    rw [errors, List.mem_singleton] at he
    exact Or.inr (he ▸ .datetime text)
  | array items =>
    rw [errors, List.mem_flatMap] at he
    obtain ⟨v, hv, he⟩ := he
    exact Or.inl ⟨v, .item hv, he⟩
  | table entries =>
    by_cases hone : ∃ key payload, entries = [(key, payload)]
    · obtain ⟨key, payload, rfl⟩ := hone
      exact (part_or_wrong_of_tagged he).imp_left fun h => ⟨payload, h⟩
    · push Not at hone
      rw [errors, List.mem_flatMap] at he
      · obtain ⟨⟨key, v⟩, hv, he⟩ := he
        exact Or.inl ⟨v, .entry hv (hone _ _), he⟩
      · exact hone
  | _ => simp [errors] at he

/-- The errors of a literal are those of the literals within it. -/
lemma mem_errors_iff [Allocator] {L : Toml} {e : LiteralError} :
    e ∈ errors L ↔ ∃ M, Within M L ∧ Wrong M e := by
  constructor
  · intro he
    induction L using wellFounded_part.induction with
    | h L ih =>
      rcases part_or_wrong_of_mem_errors he with ⟨v, hv, he⟩ | hwrong
      · obtain ⟨M, hM, hwrong⟩ := ih v hv he
        exact ⟨M, hM.tail hv, hwrong⟩
      · exact ⟨L, .refl, hwrong⟩
  · rintro ⟨M, hM, hwrong⟩
    have hsub : errors M ⊆ errors L := by
      induction hM with
      | refl => exact List.Subset.refl _
      | tail _ hpart ih => exact List.Subset.trans ih hpart.errors_subset
    exact hsub (mem_errors_of_wrong hwrong)

/-- Evaluation fails with the first error of the literal. -/
lemma result_eq_error_iff [Allocator] {L : Toml} {s : Store} {e : LiteralError} :
    (eval L s).result = .error e ↔ (errors L).head? = some e :=
  (stops_evals.1 L).error_iff

/-- Evaluation fails exactly when something within the literal is wrong. -/
lemma exists_result_eq_error_iff [Allocator] {L : Toml} {s : Store} :
    (∃ e, (eval L s).result = .error e) ↔ ∃ M e, Within M L ∧ Wrong M e := by
  calc (∃ e, (eval L s).result = .error e)
      ↔ ∃ e, e ∈ errors L := by
        simp only [result_eq_error_iff, ← Option.isSome_iff_exists, List.isSome_head?]
        exact ⟨List.exists_mem_of_ne_nil _, fun ⟨e, he⟩ => List.ne_nil_of_mem he⟩
    _ ↔ ∃ M e, Within M L ∧ Wrong M e := by
        simp only [mem_errors_iff]
        exact exists_comm

/-- Evaluation fails with the first error of a literal in the order of evaluation. The errors are
what is wrong anywhere in it but under `$nil`; so evaluation fails just when something is wrong, and
otherwise gives a value of the kind that the literal says. The entries of canonical tables, which
are evaluated in their order, are in the order of their keys. -/
theorem eval_fails_with_first_error [Allocator] (L : Toml) (s : Store) :
    (∀ e, (eval L s).result = .error e ↔ (errors L).head? = some e) ∧
    (∀ e, e ∈ errors L ↔ ∃ M, Within M L ∧ Wrong M e) ∧
    ((∃ e, (eval L s).result = .error e) ↔ ∃ M e, Within M L ∧ Wrong M e) ∧
    (∀ v, (eval L s).result = .ok v → kind? L = some v.kind) ∧
    (∀ w : Toml, w.canonical? = some L → L.InKeyOrder) := by
  refine ⟨fun e => result_eq_error_iff, fun e => mem_errors_iff, exists_result_eq_error_iff,
    fun v hv => ?_, fun w => Toml.inKeyOrder_canonicals.1 w L⟩
  rcases stops_evals.1 L s with ⟨v', hv', -, heval⟩ | ⟨e, he, -⟩
  · obtain rfl : v' = v := Except.ok.inj (hv'.symm.trans hv)
    exact heval.kind
  · rw [he] at hv
    cases hv

section

attribute [local instance] Platform.standard

/-- A date in the first pair is told, and not the second entry, which is no pair and has an unknown
tag. -/
theorem eval_pairs_fails_with_first_error :
    let L : Toml := .table [("$map", .array [.array [.boolean true, .datetime "1979-05-27"],
      .table [("$set", .integer 1)]])]
    (eval L .empty).result = .error (.datetime "1979-05-27") ∧ .unknownTag "$set" ∈ errors L := by
  intro L
  obtain ⟨hresult, hmem, -⟩ := eval_fails_with_first_error L .empty
  have hwithin : Within (.table [("$set", .integer 1)]) L :=
    .tail (.single (.item (by simp))) (.entry List.mem_cons_self (by simp))
  refine ⟨(hresult _).2 ?_, (hmem _).2 ⟨_, hwithin, .unknownTag rfl (by decide)⟩⟩
  simp [L, errors_map, pairErrors, errors, keyFaults, kindFaults, kind?]

end

end Literal

end Dynval
