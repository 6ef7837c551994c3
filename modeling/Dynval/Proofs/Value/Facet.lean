import Dynval.Number.Order
import Dynval.Proofs.Number.Order

/-!
# Facets

The facet of a value is what equality and order see of it when it is neither a list nor a map:
numbers of all kinds are counts of units, byte strings and byte arrays are their bytes. Two values
are equal when they have one facet, unless it is that of a NaN.
-/

namespace Dynval

/-- What equality and order see of a value that is neither a list nor a map. -/
inductive Facet where
  | nil
  | number (units : Option Int)
  | text (s : String)
  | bytes (data : List UInt8)
  | container

def Value.facet (s : Store) : Value → Facet
  | .nil => .nil
  | .bool b => .number (Number.int (boolInt b)).units?
  | .int i => .number (Number.int i).units?
  | .float x => .number (Number.float x).units?
  | .str t => .text t
  | .bytes data => .bytes data
  | .byteArray r => .bytes (s.data r)
  | .list _ | .map _ => .container

/-! ### Lexicographic order -/

lemma compareLex_eq {α : Type} (cmp : α → α → Ordering) (xs ys : List α) :
    compareLex cmp xs ys = List.compareLex cmp xs ys := by
  induction xs generalizing ys with
  | nil => cases ys <;> rfl
  | cons x xs ih =>
    cases ys with
    | nil => rfl
    | cons y ys =>
      rw [compareLex, ih]
      cases h : cmp x y <;> simp [List.compareLex, h]

lemma compareBytes_swap (xs ys : List UInt8) : (compareBytes xs ys).swap = compareBytes ys xs := by
  rw [compareBytes, compareLex_eq, compareLex_eq]
  exact Std.OrientedCmp.eq_swap.symm

lemma compareBytes_lt_trans {xs ys zs : List UInt8} (hxy : compareBytes xs ys = .lt)
    (hyz : compareBytes ys zs = .lt) : compareBytes xs zs = .lt := by
  rw [compareBytes, compareLex_eq] at *
  exact Std.TransCmp.lt_trans hxy hyz

lemma compareUnits_swap (m n : Option Int) :
    (compareUnits m n).map Ordering.swap = compareUnits n m := by
  cases m with
  | none => cases n <;> rfl
  | some m =>
    cases n with
    | none => rfl
    | some n => exact congrArg some (Int.compare_swap m n)

/-- Counts of units tie exactly when they are there and the same. -/
lemma compareUnits_eq_iff {m n : Option Int} :
    compareUnits m n = some .eq ↔ m = n ∧ m.isSome := by
  cases m <;> cases n <;> simp [compareUnits]

lemma compareUnits_lt_trans {l m n : Option Int} (hlm : compareUnits l m = some .lt)
    (hmn : compareUnits m n = some .lt) : compareUnits l n = some .lt := by
  cases l <;> cases m <;> cases n <;> simp only [compareUnits, reduceCtorEq] at *
  exact congrArg some (Std.TransCmp.lt_trans (Option.some.inj hlm) (Option.some.inj hmn))

namespace Facet

/-- Whether a value with the facet equals itself. -/
def isReflexive : Facet → Bool
  | .number units => units.isSome
  | .container => false
  | _ => true

/-- The order of two facets; nothing when they cannot be compared. -/
def compare : Facet → Facet → Option (Option Ordering)
  | .number m, .number n => some (compareUnits m n)
  | .text x, .text y => some (some (Text.compare x y))
  | .bytes x, .bytes y => some (some (compareBytes x y))
  | _, _ => none

lemma compare_container (f : Facet) : f.compare .container = none := by
  cases f <;> rfl

/-- Facets compare the other way round on swapped sides. -/
lemma compare_swap (f g : Facet) : (f.compare g).map (Option.map Ordering.swap) = g.compare f := by
  cases f with
  | number m =>
    cases g with
    | number n => exact congrArg some (compareUnits_swap m n)
    | _ => rfl
  | text x =>
    cases g with
    | text y => exact congrArg (some ∘ some) (compareBytes_swap _ _)
    | _ => rfl
  | bytes x =>
    cases g with
    | bytes y => exact congrArg (some ∘ some) (compareBytes_swap x y)
    | _ => rfl
  | _ => cases g <;> rfl

/-- Being below is transitive on facets. -/
lemma compare_lt_trans {f g h : Facet} (hfg : f.compare g = some (some .lt))
    (hgh : g.compare h = some (some .lt)) : f.compare h = some (some .lt) := by
  cases f with
  | number l =>
    cases g with
    | number m =>
      cases h with
      | number n =>
        exact congrArg some (compareUnits_lt_trans (Option.some.inj hfg) (Option.some.inj hgh))
      | _ => cases hgh
    | _ => cases hfg
  | text x =>
    cases g with
    | text y =>
      cases h with
      | text z =>
        simp only [compare, Option.some.injEq] at hfg hgh ⊢
        exact compareBytes_lt_trans hfg hgh
      | _ => cases hgh
    | _ => cases hfg
  | bytes x =>
    cases g with
    | bytes y =>
      cases h with
      | bytes z =>
        simp only [compare, Option.some.injEq] at hfg hgh ⊢
        exact compareBytes_lt_trans hfg hgh
      | _ => cases hgh
    | _ => cases hfg
  | _ => cases hfg

end Facet

namespace Value

variable {s : Store} {a b : Value}

/-- Values that are neither two lists nor two maps are equal when they have one facet. -/
lemma equalsFlat_iff : a.equalsFlat s b ↔ a.facet s = b.facet s ∧ (a.facet s).isReflexive := by
  cases a <;> cases b <;>
    simp [equalsFlat, facet, byteData?, number?, Facet.isReflexive, Number.compare?_eq,
      compareUnits_eq_iff]

/-- Values that are not two lists are ordered as their facets are. -/
lemma toOption_compareFlat [FloatPrinter] :
    (a.compareFlat s b).toOption = (a.facet s).compare (b.facet s) := by
  cases a <;> cases b <;>
    simp [compareFlat, facet, byteData?, number?, Arith.operands, Facet.compare, Number.compare?_eq,
      Except.toOption, bind, Except.bind, pure, Except.pure]

/-- A comparison that fails raises a fault of its own, about operands that have no order. -/
lemma fault_of_compareFlat [FloatPrinter] {f : Fault} (h : a.compareFlat s b = .error f) :
    ∃ x y, f = .of .compare (.unsupportedOperands x y) := by
  unfold compareFlat Arith.operands at h
  split at h
  · cases h
  · split at h
    · cases h
    · split at h
      · cases h
      · cases h
        exact ⟨_, _, rfl⟩

end Value

end Dynval
