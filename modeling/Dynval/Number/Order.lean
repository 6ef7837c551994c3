import Dynval.Number.Arith
import Dynval.Value.Equality

/-!
# Order of values

Numbers are ordered exactly across kinds, texts and bytes lexicographically, lists by their first
elements that differ. Other pairs cannot be compared; a NaN is unordered.
-/

namespace Dynval

namespace Value

variable [FloatPrinter]

/-- The order of values that are not two lists. -/
def compareFlat (s : Store) (a b : Value) : Except Fault (Option Ordering) :=
  match a, b with
  | .str x, .str y => .ok (some (Text.compare x y))
  | _, _ =>
    match a.byteData? s, b.byteData? s with
    | some x, some y => .ok (some (compareBytes x y))
    | _, _ => do
      let (x, y) ← Arith.operands .compare s a b
      return x.compare? y

/-- The order of values below pairs of lists that are being compared. -/
def compareBelow (s : Store) (path : List (Ref × Ref)) (a b : Value) :
    Except Fault (Option Ordering) :=
  match a, b with
  | .list x, .list y =>
    if _ : (x, y) ∈ path then .ok none
    else
      match _ : ((s.items x).zip (s.items y)).find? fun p => !p.1.equals s p.2 with
      | some p => compareBelow s ((x, y) :: path) p.1 p.2
      | none => .ok (some (compare (s.items x).length (s.items y).length))
  | _, _ => compareFlat s a b
termination_by unseen s.refPairs path
decreasing_by
  have hp := List.of_mem_zip (List.mem_of_find?_eq_some ‹_›)
  exact unseen_cons_lt
    (Store.mem_refPairs (Store.mem_refs_of_mem_items hp.1) (Store.mem_refs_of_mem_items hp.2)) ‹_›

def compare (s : Store) (a b : Value) : Except Fault (Option Ordering) :=
  a.compareBelow s [] b

/-- The second value if it has the given order to the first, else the first. -/
def prefer (o : Ordering) (s : Store) (a b : Value) : Except Fault Value := do
  return if (← b.compare s a) = some o then b else a

/-- The lesser of two values, the first if neither is. -/
abbrev lesser (s : Store) (a b : Value) : Except Fault Value :=
  prefer .lt s a b

/-- The greater of two values, the first if neither is. -/
abbrev greater (s : Store) (a b : Value) : Except Fault Value :=
  prefer .gt s a b

end Value

end Dynval
