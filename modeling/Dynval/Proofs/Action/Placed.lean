import Dynval.Proofs.Action.Basic
import Dynval.Proofs.Store.Above

/-!
# Actions above a store

An action is placed above a store when it does there, behind the containers of that store, what
another action does alone: it answers the same up to the addresses, reports the same events, and
leaves the containers of the store below as they are. Doing one action after another keeps this.
-/

namespace Dynval

namespace Action

variable {ε δ α β γ κ : Type} {base : Store} {g : α → β} {k : γ → κ}

/-- Whether an action does above a store what another one does alone. -/
def Placed (base : Store) (g : α → β) (x : Action ε α) (y : Action ε β) : Prop :=
  ∀ t, y (base.above t) = ⟨g <$> (x t).result, base.above (x t).store, (x t).events⟩

namespace Placed

lemma pure {a : α} {b : β} (h : b = g a) :
    Placed base g (pure a : Action ε α) (pure b) := by
  intro t
  rw [h]
  rfl

lemma fail (e : ε) : Placed base g (fail e) (fail e) :=
  fun _ => rfl

lemma report (events : List Event) :
    Placed base id (report events : Action ε Unit) (report events) :=
  fun _ => rfl

/-- Reading is placed when what is read above is the renaming of what is read alone. -/
lemma query {p : Store → α} {q : Store → β} (h : ∀ t, q (base.above t) = g (p t)) :
    Placed base g (query p : Action ε α) (query q) := by
  intro t
  rw [query_apply, query_apply, h]
  rfl

lemma check {p : Store → Except ε α} {q : Store → Except ε β}
    (h : ∀ t, q (base.above t) = g <$> p t) : Placed base g (check p) (check q) := by
  intro t
  rw [check_apply, check_apply, h]

lemma query_same {p q : Store → α} (h : ∀ t, q (base.above t) = p t) :
    Placed base id (Action.query p : Action ε α) (Action.query q) :=
  query h

lemma check_same {p q : Store → Except ε α} (h : ∀ t, q (base.above t) = p t) :
    Placed base id (Action.check p) (Action.check q) :=
  check fun t => by rw [h, id_map]

/-- A change is placed when changing above is the same as changing alone and then moving above. -/
lemma modify {p q : Store → Store} (h : ∀ t, q (base.above t) = base.above (p t)) :
    Placed base id (modify p : Action ε Unit) (modify q) := by
  intro t
  rw [modify_apply, modify_apply, h]
  rfl

lemma update {p : Store → α × Store} {q : Store → β × Store}
    (h : ∀ t, q (base.above t) = (g (p t).1, base.above (p t).2)) :
    Placed base g (update p : Action ε α) (update q) := by
  intro t
  simp only [Action.update, h]
  rfl

/-- Actions in a row are placed when each of them is. -/
lemma bind {x : Action ε α} {y : Action ε β} {p : α → Action ε γ} {q : β → Action ε κ}
    (hxy : Placed base g x y) (hpq : ∀ a, Placed base k (p a) (q (g a))) :
    Placed base k (x >>= p) (y >>= q) := by
  intro t
  have hy := hxy t
  cases hx : (x t).result with
  | error e =>
    rw [hx] at hy
    have hye : (y (base.above t)).result = .error e := by rw [hy]; rfl
    rw [bind_of_error hx, bind_of_error hye, hy]
    rfl
  | ok a =>
    rw [hx] at hy
    have hya : (y (base.above t)).result = .ok (g a) := by rw [hy]; rfl
    rw [bind_of_ok hx, bind_of_ok hya, hy, hpq a]

/-- A list of actions is placed when each of them is. -/
lemma mapM {p : α → Action ε γ} {q : β → Action ε κ} (h : ∀ a, Placed base k (p a) (q (g a)))
    (as : List α) : Placed base (List.map k) (as.mapM p) ((as.map g).mapM q) := by
  induction as with
  | nil => exact pure rfl
  | cons a as ih =>
    rw [List.map_cons, List.mapM_cons, List.mapM_cons]
    exact bind (h a) fun c => bind ih fun cs => pure rfl

/-- How an action ended is the same above a store. -/
lemma attempt {x : Action ε α} {y : Action ε β} (h : Placed base g x y) :
    Placed base (g <$> ·) (x.attempt : Action δ (Except ε α)) y.attempt := by
  intro t
  simp only [Action.attempt, h t]
  rfl

lemma mapError {x : Action ε α} {y : Action ε β} (h : Placed base g x y) (e : ε → δ) :
    Placed base g (x.mapError e) (y.mapError e) := by
  intro t
  simp only [Action.mapError, h t]
  cases (x t).result <;> rfl

/-- A container added above a store has its address shifted by the size of that store. -/
lemma alloc (c : Cell) :
    Placed base (Ref.shift base.size) (alloc c : Action ε Ref)
      (alloc (c.rename (Ref.shift base.size))) :=
  update fun t => base.alloc_above t c

lemma newList (items : List Value) :
    Placed base base.move (newList items : Action ε Value) (newList (items.map base.move)) :=
  bind (alloc (.list items)) fun _ => pure rfl

lemma newMap (entries : Entries Value) :
    Placed base base.move (newMap entries : Action ε Value)
      (newMap (entries.mapValues base.move)) :=
  bind (alloc (.map entries)) fun _ => pure rfl

lemma newByteArray (data : List UInt8) :
    Placed base base.move (newByteArray data : Action ε Value) (newByteArray data) :=
  bind (alloc (.byteArray data)) fun _ => pure rfl

/-- An action that is placed above every store and answers no addresses answers the same in every
store. -/
lemma result_eq {x : Action ε α} (h : Placed base id x x) :
    (x base).result = (x .empty).result := by
  have hx := congrArg Outcome.result (h .empty)
  rwa [base.above_empty, id_map] at hx

/-- An action that is placed above every store succeeds in the empty store if it succeeds in one. -/
lemma exists_ok {x : Action ε α} {g : α → α} (h : Placed base g x x) {a : α}
    (hx : (x base).result = .ok a) : ∃ b, (x .empty).result = .ok b := by
  have heq := congrArg Outcome.result (h .empty)
  rw [base.above_empty, hx] at heq
  cases hempty : (x .empty).result with
  | error e =>
    rw [hempty] at heq
    cases heq
  | ok b => exact ⟨b, rfl⟩

end Placed

end Action

end Dynval
