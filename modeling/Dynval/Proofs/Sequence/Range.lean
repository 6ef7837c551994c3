import Mathlib.Tactic.Linarith
import Mathlib.Tactic.Ring
import Dynval.Sequence.Basic

/-!
# Ranges are walked exactly

A range gives the integers `start + k * step` that lie before `stop` in the direction of the step.
Their number is known before the first one is given (`lt_count_iff`), fits in 64 bits, and every one
of them is a 64-bit integer, so that the addition that steps from one to the next can wrap only
behind the last. `Walked` is the invariant of a walk: what a range looks like after `k` calls.
-/

namespace Dynval.StepRange

/-! ### How many integers there are -/

/-- Whether an integer lies before `stop` in the direction of a step. -/
def Before (step stop i : Int) : Prop :=
  if 0 < step then i < stop else stop < i

/-- A place comes before the rounded quotient exactly when its multiple comes before the span. -/
lemma lt_ceilDiv_iff {span m : Int} (hm : 0 < m) (k : Nat) :
    k < ((span + m - 1) / m).toNat ↔ k * m < span := by
  rw [Int.lt_toNat, ← Int.add_one_le_iff, Int.le_ediv_iff_mul_le hm, Int.add_mul]
  omega

/-- A range holds as many integers as lie before its stop. -/
lemma lt_count_iff {start stop step : Int} (hstep : step ≠ 0) (k : Nat) :
    k < count start stop step ↔ Before step stop (start + k * step) := by
  have habs : (0 : Int) < step.natAbs := by omega
  rw [count, lt_ceilDiv_iff habs, Before]
  by_cases hpos : 0 < step
  · simp only [hpos, if_true, Int.natAbs_of_nonneg hpos.le]
    omega
  · have hneg : (step.natAbs : Int) = -step := by omega
    simp only [hpos, if_false, hneg, Int.mul_neg]
    omega

section Word

variable {start stop step : Int64}

lemma toInt_ne_zero (hstep : step ≠ 0) : step.toInt ≠ 0 :=
  fun h => hstep (Int64.toInt_inj.1 h)

/-- The number of integers of a range is below `2 ^ 64`. -/
lemma count_lt_two_pow (hstep : step ≠ 0) : count start.toInt stop.toInt step.toInt < 2 ^ 64 := by
  have hne := toInt_ne_zero hstep
  by_contra! hle
  have hlast := (lt_count_iff hne (2 ^ 64 - 1)).1 (Nat.lt_of_lt_of_le (by omega) hle)
  have hlo := start.le_toInt
  have hhi := start.toInt_lt
  have hlo' := stop.le_toInt
  have hhi' := stop.toInt_lt
  by_cases hpos : 0 < step.toInt
  · simp only [Before, hpos, if_true] at hlast
    omega
  · simp only [Before, hpos, if_false] at hlast
    omega

/-- The integer at a place of a range, reduced to 64 bits. -/
def place (start step : Int64) (k : Nat) : Int64 :=
  .ofInt (start.toInt + k * step.toInt)

@[simp] lemma place_zero (start step : Int64) : place start step 0 = start := by
  simp [place]

/-- Each place is one step behind the one before, in 64 bits. -/
lemma place_succ (start step : Int64) (k : Nat) :
    place start step (k + 1) = place start step k + step := by
  have hsum : start.toInt + (k + 1 : Nat) * step.toInt =
      start.toInt + k * step.toInt + step.toInt := by
    push_cast
    ring
  rw [place, place, hsum, Int64.ofInt_add _ step.toInt, Int64.ofInt_toInt]

/-- Nothing is lost in reducing an integer before the stop to 64 bits. -/
lemma toInt_place (hstep : step ≠ 0) {k : Nat}
    (hk : k < count start.toInt stop.toInt step.toInt) :
    (place start step k).toInt = start.toInt + k * step.toInt := by
  have hbefore := (lt_count_iff (toInt_ne_zero hstep) k).1 hk
  by_cases hpos : 0 < step.toInt
  · simp only [Before, hpos, if_true] at hbefore
    have hnonneg : 0 ≤ (k : Int) * step.toInt := by positivity
    apply Int64.toInt_ofInt_of_le
    · linarith [start.le_toInt]
    · linarith [stop.toInt_lt]
  · simp only [Before, hpos, if_false] at hbefore
    have hnonpos : (k : Int) * step.toInt ≤ 0 :=
      mul_nonpos_of_nonneg_of_nonpos (Int.natCast_nonneg k) (not_lt.1 hpos)
    apply Int64.toInt_ofInt_of_le
    · linarith [stop.le_toInt]
    · linarith [start.toInt_lt]

end Word

/-! ### Calls -/

/-- The range after a call of `next?`; a call that gives nothing leaves it as it is. -/
def advance (r : StepRange) : StepRange :=
  (r.next?.map Prod.snd).getD r

def after (r : StepRange) : Nat → StepRange
  | 0 => r
  | k + 1 => (r.after k).advance

/-- What a range of `n` integers looks like after `k` calls. The integer that comes next is of no
account when there is none. -/
structure Walked (start step : Int64) (n k : Nat) (r : StepRange) : Prop where
  step_eq : r.step = step
  remaining_eq : r.remaining.toNat = n - k
  next_eq : k < n → r.next = place start step k

namespace Walked

variable {start step : Int64} {n k : Nat} {r : StepRange}

/-- Nothing remains exactly when all integers were given. -/
lemma remaining_eq_zero_iff (h : Walked start step n k r) : r.remaining = 0 ↔ n ≤ k := by
  rw [← UInt64.toNat_inj, h.remaining_eq]
  simp [Nat.sub_eq_zero_iff_le]

/-- A call gives the integer at its place, as long as there is one. -/
lemma next?_eq (h : Walked start step n k r) : r.next? =
    if k < n then some (place start step k, r.advance) else none := by
  by_cases hk : k < n
  · have hmore : r.remaining ≠ 0 := by simp [h.remaining_eq_zero_iff, hk]
    simp [advance, next?, hmore, hk, h.next_eq hk]
  · have hdone : r.remaining = 0 := by simpa [h.remaining_eq_zero_iff] using hk
    simp [next?, hdone, hk]

/-- The step of a walk. -/
lemma advance (h : Walked start step n k r) : Walked start step n (k + 1) r.advance := by
  by_cases hk : k < n
  · have hmore : r.remaining ≠ 0 := by simp [h.remaining_eq_zero_iff, hk]
    have hadvance : r.advance = ⟨r.next + r.step, r.step, r.remaining - 1⟩ := by
      simp [StepRange.advance, next?, hmore]
    have hone : (1 : UInt64) ≤ r.remaining := by
      rw [UInt64.le_iff_toNat_le, h.remaining_eq]
      exact Nat.sub_pos_of_lt hk
    rw [hadvance]
    refine ⟨h.step_eq, ?_, fun _ => ?_⟩
    · rw [UInt64.toNat_sub_of_le _ _ hone, h.remaining_eq]
      rfl
    · rw [h.step_eq, h.next_eq hk, place_succ]
  · have hdone : r.remaining = 0 := by simpa [h.remaining_eq_zero_iff] using hk
    have hadvance : r.advance = r := by simp [StepRange.advance, next?, hdone]
    rw [hadvance]
    refine ⟨h.step_eq, ?_, fun hlt => ?_⟩
    · rw [h.remaining_eq]
      omega
    · omega

/-- The run lemma: after `k` calls a range has been walked by `k`. -/
lemma after (h : Walked start step n 0 r) (k : Nat) : Walked start step n k (r.after k) := by
  induction k with
  | zero => exact h
  | succ k ih => exact ih.advance

end Walked

/-- A range starts with as many integers as lie before its stop: the count is not cut by keeping it
in 64 bits. -/
lemma walked_start (start stop : Int64) {step : Int64} (hstep : step ≠ 0) :
    Walked start step (count start.toInt stop.toInt step.toInt) 0
      ⟨start, step, .ofNat (count start.toInt stop.toInt step.toInt)⟩ := by
  refine ⟨rfl, ?_, fun _ => ?_⟩
  · rw [UInt64.toNat_ofNat_of_lt' (count_lt_two_pow hstep), Nat.sub_zero]
  · simp

/-! ### Whole ranges -/

/-- What is left of a range, call after call, are the integers at the places that are left. -/
lemma toList_eq {start step : Int64} {r : StepRange} {n k : Nat} (h : Walked start step n k r) :
    r.toList = (List.range' k (n - k)).map (place start step) := by
  induction hleft : n - k generalizing k r with
  | zero =>
    have hdone : ¬k < n := by omega
    rw [toList, h.next?_eq, if_neg hdone]
    rfl
  | succ m ih =>
    have hk : k < n := by omega
    rw [toList, h.next?_eq, if_pos hk, List.range'_succ, List.map_cons, ← ih h.advance (by omega)]

/-- What is left is hinted exactly, from below and from above. -/
lemma sizeHint_eq {start step : Int64} {r : StepRange} {n k : Nat} (h : Walked start step n k r) :
    r.sizeHint = (n - k, some (n - k)) := by
  rw [sizeHint, toSize?_toNat, h.remaining_eq, Option.getD_some]

/-- The whole range, if there is room for it. -/
lemma range_eq [Allocator] {start stop step : Int64} {r : StepRange} {n : Nat}
    (hr : ofBounds start stop step = .ok r) (h : Walked start step n 0 r) :
    Sequence.range start stop step =
      if Allocator.reserves .integer n then .ok ((List.range n).map (place start step))
      else .error (.of .range (.cannotAllocate n)) := by
  have hn : r.remaining.toNat = n := h.remaining_eq
  have hlist : r.toList = (List.range n).map (place start step) := by
    rw [toList_eq h, Nat.sub_zero, List.range_eq_range']
  have hsize : toSize? n = some n := hn ▸ toSize?_toNat r.remaining
  simp only [Sequence.range, hr, Sequence.reserve, bind, Except.bind, hn, hsize, hlist]
  split_ifs <;> rfl

/-- A step of zero is a value fault. For any other step a range gives, call after call, the integers
`start + k * step` that lie before `stop` in the direction of the step, as exact integers, and then
nothing for ever; before each call its hint is how many are still to come. All of them in order are
the range as a list, unless there is no room for them. -/
theorem walk_gives_integers_before_stop [Allocator] (start stop step : Int64) :
    (step = 0 → ∃ f, ofBounds start stop step = .error f ∧
      Sequence.range start stop step = .error f ∧ f.kind = .value) ∧
    (step ≠ 0 → ∃ r n, ofBounds start stop step = .ok r ∧
      (∀ k : Nat, k < n ↔ Before step.toInt stop.toInt (start.toInt + k * step.toInt)) ∧
      (∀ k, (r.after k).next?.map (fun p => p.1.toInt) =
        if k < n then some (start.toInt + k * step.toInt) else none) ∧
      (∀ k, (r.after k).sizeHint = (n - k, some (n - k))) ∧
      (Allocator.reserves .integer n = true → ∃ is, Sequence.range start stop step = .ok is ∧
        is.map Int64.toInt = (List.range n).map fun k : Nat => start.toInt + k * step.toInt) ∧
      (Allocator.reserves .integer n = false → ∃ f, Sequence.range start stop step = .error f ∧
        f.kind = .memory)) := by
  constructor
  · rintro rfl
    exact ⟨_, rfl, rfl, rfl⟩
  · intro hstep
    have hwalked := walked_start start stop hstep
    have hof : ofBounds start stop step =
        .ok ⟨start, step, .ofNat (count start.toInt stop.toInt step.toInt)⟩ := if_neg hstep
    have hcount : ∀ k, k < count start.toInt stop.toInt step.toInt ↔ _ :=
      lt_count_iff (toInt_ne_zero hstep)
    have hexact : ∀ k, k < count start.toInt stop.toInt step.toInt → _ := fun _ => toInt_place hstep
    generalize count start.toInt stop.toInt step.toInt = n at *
    refine ⟨_, n, hof, hcount, fun k => ?_, fun k => sizeHint_eq (hwalked.after k), ?_, ?_⟩
    · rw [(hwalked.after k).next?_eq]
      by_cases hk : k < n
      · simp [hk, hexact k hk]
      · simp [hk]
    · intro hroom
      refine ⟨(List.range n).map (place start step), ?_, ?_⟩
      · rw [range_eq hof hwalked, if_pos hroom]
      · rw [List.map_map]
        apply List.map_congr_left
        intro k hk
        exact hexact k (List.mem_range.1 hk)
    · intro hroom
      refine ⟨.of .range (.cannotAllocate n), ?_, rfl⟩
      rw [range_eq hof hwalked, hroom, if_neg Bool.false_ne_true]

-- the largest step takes one wrapped addition behind the last integer, the largest span all 64 bits
example : (ofBounds .maxValue .minValue .minValue).map toList = .ok [.maxValue, -1] := by
  decide +kernel

example : (ofBounds .minValue .maxValue 1).map remaining = .ok (2 ^ 64 - 1) := by
  decide +kernel

end Dynval.StepRange
