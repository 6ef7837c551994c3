import Mathlib.Data.List.Forall2
import Dynval.Action
import Dynval.Proofs.Store.Basic
import Dynval.Store.Copy

/-!
# Properties of actions

Three properties of actions that are kept by doing one action after another: an action restricts
another one when it does the same wherever it succeeds, it succeeds when it never fails, and it
respects a relation between stores when what it does to a store is allowed by the relation.
-/

namespace Dynval

/-! ### Later stores -/

/-- A later store: no container that was there before is gone or changed. -/
structure Store.Extends (s t : Store) : Prop where
  size : s.size ≤ t.size
  cell? : ∀ r : Ref, r.index < s.size → t.cell? r = s.cell? r

namespace Store.Extends

lemma refl (s : Store) : s.Extends s :=
  ⟨Nat.le_refl _, fun _ _ => rfl⟩

lemma trans {s t u : Store} (hst : s.Extends t) (htu : t.Extends u) : s.Extends u := by
  refine ⟨Nat.le_trans hst.size htu.size, fun r hr => ?_⟩
  rw [htu.cell? r (Nat.lt_of_lt_of_le hr hst.size), hst.cell? r hr]

/-- Adding a container leaves the others as they are. -/
lemma alloc (s : Store) (c : Cell) : s.Extends (s.alloc c).2 := by
  refine ⟨?_, fun r hr => Store.cell?_alloc_of_lt c hr⟩
  rw [Store.size_alloc]
  exact Nat.le_succ _

end Store.Extends

/-- A relation between a store and a later one that allows doing nothing, one allowed thing after
another, adding lists and byte arrays, and copying. -/
class Store.Growth (R : Store → Store → Prop) : Prop where
  refl (s : Store) : R s s
  trans {s t u : Store} : R s t → R t u → R s u
  list (s : Store) (items : List Value) : R s (s.alloc (.list items)).2
  byteArray (s : Store) (data : List UInt8) : R s (s.alloc (.byteArray data)).2
  deepCopy (s : Store) (v : Value) : R s (s.deepCopy v).2

lemma mapError_eq_ok_iff {ε δ α : Type} {e : ε → δ} {x : Except ε α} {a : α} :
    x.mapError e = .ok a ↔ x = .ok a := by
  cases x with
  | error err => exact ⟨nofun, nofun⟩
  | ok b =>
    constructor <;>
    · rintro ⟨⟩
      rfl

namespace Action

variable {ε α β : Type} {x y : Action ε α} {f g : α → Action ε β} {s : Store}

/-! ### What actions do to a store -/

@[simp] lemma fail_apply (e : ε) (s : Store) : (fail e : Action ε α) s = ⟨.error e, s, []⟩ := rfl

@[simp] lemma report_apply (events : List Event) (s : Store) :
    (report events : Action ε Unit) s = ⟨.ok (), s, events⟩ := rfl

@[simp] lemma query_apply (h : Store → α) (s : Store) :
    (query h : Action ε α) s = ⟨.ok (h s), s, []⟩ := rfl

@[simp] lemma check_apply (h : Store → Except ε α) (s : Store) : check h s = ⟨h s, s, []⟩ := rfl

@[simp] lemma modify_apply (h : Store → Store) (s : Store) :
    (modify h : Action ε Unit) s = ⟨.ok (), h s, []⟩ := rfl

@[simp] lemma query_bind_apply (h : Store → α) (f : α → Action ε β) (s : Store) :
    (query h >>= f) s = f (h s) s := rfl

/-- After a success the second action runs on the store that the first left, and its events follow.
-/
lemma bind_of_ok {a : α} (h : (x s).result = .ok a) :
    (x >>= f) s =
      ⟨(f a (x s).store).result, (f a (x s).store).store,
        (x s).events ++ (f a (x s).store).events⟩ := by
  rw [bind_apply]
  split <;> simp_all

/-- After a failure the second action does not run. -/
lemma bind_of_error {e : ε} (h : (x s).result = .error e) :
    (x >>= f) s = ⟨.error e, (x s).store, (x s).events⟩ := by
  rw [bind_apply]
  split <;> simp_all

/-- Where two actions in a row succeed, both do. -/
lemma exists_of_bind_ok {b : β} (h : ((x >>= f) s).result = .ok b) :
    ∃ a, (x s).result = .ok a ∧ (f a (x s).store).result = .ok b := by
  cases hx : (x s).result with
  | error e =>
    rw [bind_of_error hx] at h
    cases h
  | ok a =>
    rw [bind_of_ok hx] at h
    exact ⟨a, rfl, h⟩

lemma bind_ok_iff {b : β} : ((x >>= f) s).result = .ok b ↔
    ∃ a, (x s).result = .ok a ∧ (f a (x s).store).result = .ok b := by
  refine ⟨exists_of_bind_ok, ?_⟩
  rintro ⟨a, ha, hb⟩
  rw [bind_of_ok ha, hb]

/-- Two actions in a row fail with an error exactly when the first does, or the second does after a
success of the first. -/
lemma bind_error_iff {e : ε} : ((x >>= f) s).result = .error e ↔
    (x s).result = .error e ∨ ∃ a, (x s).result = .ok a ∧ (f a (x s).store).result = .error e := by
  cases hx : (x s).result with
  | error e' => simp [bind_of_error hx]
  | ok a => simp [bind_of_ok hx]

/-- Another error makes no difference to a success. -/
lemma mapError_ok_iff {δ : Type} {e : ε → δ} {a : α} :
    (x.mapError e s).result = .ok a ↔ (x s).result = .ok a :=
  mapError_eq_ok_iff

lemma mapError_of_error {δ : Type} {e : ε} (h : (x s).result = .error e) (g : ε → δ) :
    (x.mapError g s).result = .error (g e) := by
  rw [Action.mapError, h]
  rfl

/-- Behind an action that always answers the same, only what comes after that answer counts. -/
lemma bind_congr_of_ok {a : α} (h : ∀ s, (x s).result = .ok a) : x >>= f = x >>= fun _ => f a := by
  funext s
  rw [bind_of_ok (h s), bind_of_ok (h s)]

protected lemma bind_pure (x : Action ε α) : x >>= Pure.pure = x := by
  funext s
  cases hx : (x s).result with
  | error e => rw [bind_of_error hx, ← hx]
  | ok a => rw [bind_of_ok hx, pure_apply, List.append_nil, ← hx]

protected lemma bind_assoc {γ : Type} (x : Action ε α) (f : α → Action ε β)
    (g : β → Action ε γ) : x >>= f >>= g = x >>= fun a => f a >>= g := by
  funext s
  cases hx : (x s).result with
  | error e =>
    have hxf : ((x >>= f) s).result = .error e := by rw [bind_of_error hx]
    rw [bind_of_error hxf, bind_of_error hx, bind_of_error hx]
  | ok a =>
    cases hf : (f a (x s).store).result with
    | error e =>
      have hxf : ((x >>= f) s).result = .error e := by rw [bind_of_ok hx, hf]
      rw [bind_of_error hxf, bind_of_ok hx, bind_of_ok hx, bind_of_error hf]
    | ok b =>
      have hxf : ((x >>= f) s).result = .ok b := by rw [bind_of_ok hx, hf]
      rw [bind_of_ok hxf, bind_of_ok hx, bind_of_ok hx, bind_of_ok hf, List.append_assoc]

instance : LawfulMonad (Action ε) :=
  LawfulMonad.mk' _ Action.bind_pure (fun _ _ => rfl) Action.bind_assoc

@[simp] lemma map_apply (h : α → β) (x : Action ε α) (s : Store) :
    (h <$> x) s = ⟨(x s).result.map h, (x s).store, (x s).events⟩ := by
  rw [map_eq_pure_bind]
  cases hx : (x s).result with
  | error e =>
    rw [bind_of_error hx]
    rfl
  | ok a =>
    rw [bind_of_ok hx, pure_apply, List.append_nil]
    rfl

/-! ### Several actions -/

section Several

variable (act : β → Action ε α) {Gives : β → α → Prop} {Fails : β → ε → Prop}

/-- Actions one after another succeed if each does. -/
lemma mapM_ok_iff (hok : ∀ b s a, (act b s).result = .ok a ↔ Gives b a) {bs : List β}
    {as : List α} :
    (bs.mapM act s).result = .ok as ↔ List.Forall₂ Gives bs as := by
  induction bs generalizing as s with
  | nil =>
    rw [List.mapM_nil, pure_apply, Except.ok.injEq, List.forall₂_nil_left_iff, eq_comm]
  | cons b bs ih =>
    simp only [List.mapM_cons, bind_ok_iff, hok, ih, pure_apply, Except.ok.injEq,
      List.forall₂_cons_left_iff]
    constructor
    · rintro ⟨a, ha, as, has, rfl⟩
      exact ⟨a, as, ha, has, rfl⟩
    · rintro ⟨a, as, ha, has, rfl⟩
      exact ⟨a, ha, as, has, rfl⟩

/-- Actions one after another fail with the error of the first that does. -/
lemma mapM_error_iff (hok : ∀ b s a, (act b s).result = .ok a ↔ Gives b a)
    (herror : ∀ b s e, (act b s).result = .error e ↔ Fails b e) {bs : List β} {e : ε} :
    (bs.mapM act s).result = .error e ↔ ∃ before b after, bs = before ++ b :: after ∧
      (∀ b ∈ before, ∃ a, Gives b a) ∧ Fails b e := by
  induction bs generalizing s with
  | nil => simp
  | cons b bs ih =>
    simp only [List.mapM_cons, bind_error_iff, hok, herror, ih, pure_apply, reduceCtorEq, and_false,
      exists_false, or_false]
    constructor
    · rintro (h | ⟨a, ha, before, c, after, rfl, hbefore, hc⟩)
      · exact ⟨[], b, bs, rfl, nofun, h⟩
      · exact ⟨b :: before, c, after, rfl, List.forall_mem_cons.2 ⟨⟨a, ha⟩, hbefore⟩, hc⟩
    · rintro ⟨before, c, after, hbs, hbefore, hc⟩
      cases before with
      | nil =>
        obtain ⟨rfl, rfl⟩ := List.cons.inj hbs
        exact Or.inl hc
      | cons d before =>
        obtain ⟨rfl, rfl⟩ := List.cons.inj hbs
        obtain ⟨⟨a, ha⟩, hbefore⟩ := List.forall_mem_cons.1 hbefore
        exact Or.inr ⟨a, ha, before, c, after, rfl, hbefore, hc⟩

/-- Actions that answer and report without touching the store do so one after another. -/
lemma mapM_apply_of_forall {answer : β → α} {events : β → List Event}
    (h : ∀ b s, act b s = ⟨.ok (answer b), s, events b⟩) (bs : List β) (s : Store) :
    bs.mapM act s = ⟨.ok (bs.map answer), s, bs.flatMap events⟩ := by
  induction bs with
  | nil => rfl
  | cons b bs ih => simp [List.mapM_cons, bind_apply, h, ih, Except.map]

end Several

/-! ### Restriction -/

/-- Whether an action does what another one does wherever it succeeds. -/
def Restricts (x y : Action ε α) : Prop :=
  ∀ s a, (x s).result = .ok a → y s = x s

lemma Restricts.refl (x : Action ε α) : x.Restricts x :=
  fun _ _ _ => rfl

/-- Actions in a row restrict others in a row, one by one. -/
lemma Restricts.bind (hxy : x.Restricts y) (hfg : ∀ a, (f a).Restricts (g a)) :
    (x >>= f).Restricts (y >>= g) := by
  intro s b h
  cases hx : (x s).result with
  | error e =>
    rw [bind_of_error hx] at h
    cases h
  | ok a =>
    have hy := hxy s a hx
    rw [bind_of_ok hx] at h ⊢
    rw [bind_of_ok (hy ▸ hx), hy, hfg a _ b h]

/-! ### Success -/

/-- Whether an action never fails. -/
def Succeeds (x : Action ε α) : Prop :=
  ∀ s, ∃ a, (x s).result = .ok a

lemma Succeeds.pure (a : α) : (pure a : Action ε α).Succeeds :=
  fun _ => ⟨a, rfl⟩

lemma Succeeds.report (events : List Event) : (report events : Action ε Unit).Succeeds :=
  fun _ => ⟨(), rfl⟩

lemma Succeeds.query (f : Store → α) : (query f : Action ε α).Succeeds :=
  fun s => ⟨f s, rfl⟩

lemma Succeeds.modify (f : Store → Store) : (modify f : Action ε Unit).Succeeds :=
  fun _ => ⟨(), rfl⟩

/-- Two actions that never fail never fail in a row. -/
lemma Succeeds.bind (hx : x.Succeeds) (hf : ∀ a, (f a).Succeeds) : (x >>= f).Succeeds := by
  intro s
  obtain ⟨a, ha⟩ := hx s
  obtain ⟨b, hb⟩ := hf a (x s).store
  exact ⟨b, by rw [bind_of_ok ha, hb]⟩

/-! ### What may happen to a store -/

/-- Whether an action changes every store in a way that a relation allows. -/
def Respects (R : Store → Store → Prop) (x : Action ε α) : Prop :=
  ∀ s, R s (x s).store

section Growth

variable {R : Store → Store → Prop} [Store.Growth R]

@[simp] lemma respects_pure (a : α) : (pure a : Action ε α).Respects R :=
  Store.Growth.refl

@[simp] lemma respects_fail (e : ε) : (fail e : Action ε α).Respects R :=
  Store.Growth.refl

@[simp] lemma respects_report (events : List Event) : (report events : Action ε Unit).Respects R :=
  Store.Growth.refl

@[simp] lemma respects_query (f : Store → α) : (query f : Action ε α).Respects R :=
  Store.Growth.refl

@[simp] lemma respects_check (f : Store → Except ε α) : (check f).Respects R :=
  Store.Growth.refl

/-- The second action has to respect the relation only for answers that the first can give. -/
lemma respects_bind_of_ok (hx : x.Respects R)
    (hf : ∀ s a, (x s).result = .ok a → (f a).Respects R) : (x >>= f).Respects R := by
  intro s
  cases h : (x s).result with
  | error e =>
    rw [bind_of_error h]
    exact hx s
  | ok a =>
    rw [bind_of_ok h]
    exact Store.Growth.trans (hx s) (hf s a h _)

/-- What two actions respect they respect in a row. -/
@[simp] lemma respects_bind (hx : x.Respects R) (hf : ∀ a, (f a).Respects R) :
    (x >>= f).Respects R :=
  respects_bind_of_ok hx fun _ a _ => hf a

@[simp] lemma respects_map {h : α → β} (hx : x.Respects R) : (h <$> x).Respects R := by
  rw [map_eq_pure_bind]
  exact respects_bind hx fun a => respects_pure (h a)

/-- What every action respects a list of them respects. -/
@[simp] lemma respects_mapM {γ : Type} {f : γ → Action ε α} (hf : ∀ c, (f c).Respects R)
    (cs : List γ) : (cs.mapM f).Respects R := by
  induction cs with
  | nil => simp
  | cons c cs ih => simp [hf, ih]

end Growth

lemma Respects.mapError {δ : Type} {R : Store → Store → Prop} (hx : x.Respects R) (e : ε → δ) :
    (x.mapError e).Respects R :=
  hx

end Action

/-- A new list stands behind all containers. -/
lemma newList_apply {ε : Type} (items : List Value) (s : Store) :
    (newList items : Action ε Value) s =
      ⟨.ok (.list ⟨s.size⟩), (s.alloc (.list items)).2, []⟩ := rfl

lemma newMap_apply {ε : Type} (entries : Entries Value) (s : Store) :
    (newMap entries : Action ε Value) s =
      ⟨.ok (.map ⟨s.size⟩), (s.alloc (.map entries)).2, []⟩ := rfl

lemma newByteArray_apply {ε : Type} (data : List UInt8) (s : Store) :
    (newByteArray data : Action ε Value) s =
      ⟨.ok (.byteArray ⟨s.size⟩), (s.alloc (.byteArray data)).2, []⟩ := rfl

section Growth

variable {ε : Type} {R : Store → Store → Prop} [Store.Growth R]

@[simp] lemma respects_newList (items : List Value) : (newList items : Action ε Value).Respects R :=
  fun s => Store.Growth.list s items

@[simp] lemma respects_newByteArray (data : List UInt8) :
    (newByteArray data : Action ε Value).Respects R :=
  fun s => Store.Growth.byteArray s data

end Growth

end Dynval
