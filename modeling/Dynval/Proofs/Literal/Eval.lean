import Dynval.Literal
import Dynval.Proofs.Operation.Placed

/-!
# Evaluation of literals

A literal has no addresses in it, so its evaluation does above a store what it does in the empty
store.
-/

namespace Dynval

open Dynval.Action (Placed)

namespace Literal

/-- What a table with one key stands for. -/
lemma eval_tagged [Allocator] (key : String) (payload : Toml) :
    eval (.table [(key, payload)]) =
      match Tag.ofKey key with
      | .nil => return .nil
      | .bytes => do
        let v ← eval payload
        (Sequence.byteStringFrom v).mapError .fault
      | .byteArray => do
        let v ← eval payload
        (Sequence.byteArrayFrom v).mapError .fault
      | .map =>
        match payload with
        | .array pairs => do newMap (← evalPairs [] pairs)
        | _ => Action.fail .notPairs
      | .unknown => Action.fail (.unknownTag key)
      | .none => eval payload >>= fun v => newMap [(.str key, v)] :=
  (eval.eq_def _).trans rfl

variable {base : Store}

lemma placed_evals [Allocator] :
    (∀ v, Placed base base.move (eval v) (eval v)) ∧
    (∀ map entries, Placed base (Entries.mapValues base.move) (evalEntries map entries)
      (evalEntries (map.mapValues base.move) entries)) ∧
    (∀ map pairs, Placed base (Entries.mapValues base.move) (evalPairs map pairs)
      (evalPairs (map.mapValues base.move) pairs)) ∧
    (∀ items, Placed base (List.map base.move) (evalItems items) (evalItems items)) := by
  apply eval.mutual_induct
  -- scalars and arrays
  · intro s
    rw [eval]
    exact .pure rfl
  · intro i
    rw [eval]
    exact .pure rfl
  · intro x
    rw [eval]
    exact .pure rfl
  · intro b
    rw [eval]
    exact .pure rfl
  · intro text
    rw [eval]
    exact .fail _
  · intro items ih
    rw [eval]
    exact .bind ih fun vs => .newList vs
  -- tables with one key, by its tag, and other tables
  · intro key payload htag
    rw [eval_tagged, htag]
    exact .pure rfl
  · intro key payload htag ih
    rw [eval_tagged, htag]
    exact .bind ih fun v => .mapError (Sequence.placed_byteStringFrom v) _
  · intro key payload htag ih
    rw [eval_tagged, htag]
    exact .bind ih fun v => .mapError (Sequence.placed_byteArrayFrom v) _
  · intro key htag pairs ih
    rw [eval_tagged, htag]
    exact .bind ih fun entries => .newMap entries
  · intro key payload htag hpairs
    rw [eval_tagged, htag]
    cases payload with
    | array pairs => exact absurd rfl (hpairs pairs)
    | _ => exact .fail _
  · intro key payload htag
    rw [eval_tagged, htag]
    exact .fail _
  · intro key payload htag ih
    rw [eval_tagged, htag]
    exact .bind ih fun v => .newMap [(.str key, v)]
  · intro entries hentries ih
    rw [eval]
    · exact .bind ih fun map => .newMap map
    · exact hentries
  -- pairs: a key holds no address, so it is found and stored under the same key
  · intro map
    rw [evalPairs, evalPairs]
    exact .pure rfl
  · intro map key item rest ihkey ihitem ihrest
    rw [evalPairs, evalPairs]
    refine .bind ihkey fun k => .bind (.check_same fun _ => ?_) fun key => .bind ihitem fun v => ?_
    · rw [Key.ofValue_rename]
    · rw [id, Entries.insert_mapValues]
      exact ihrest key v
  · intro map entry rest hentry
    rw [evalPairs, evalPairs]
    · exact .fail _
    · exact hentry
    · exact hentry
  -- items and entries
  · rw [evalItems]
    exact .pure rfl
  · intro item rest ihitem ihrest
    rw [evalItems]
    exact .bind ihitem fun v => .bind ihrest fun vs => .pure rfl
  · intro map
    rw [evalEntries, evalEntries]
    exact .pure rfl
  · intro map key item rest ihitem ihrest
    rw [evalEntries, evalEntries]
    refine .bind ihitem fun v => ?_
    rw [Entries.insert_mapValues]
    exact ihrest v

/-- A literal has the same value above every store. -/
lemma placed_eval [Allocator] (base : Store) (v : Toml) : Placed base base.move (eval v) (eval v) :=
  placed_evals.1 v

end Literal

end Dynval
