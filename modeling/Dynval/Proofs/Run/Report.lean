import Mathlib.Data.List.Infix
import Dynval.Run.Basic

/-!
# Reports up to the first failure

A run that stops at a failure reports the beginning of what a run without stops reports:
`Report.ofCases` gives both reports. The beginning is the shortest one with a failure in it
(`Report.UpToFailure`), so both reports agree on whether there is one.

A report is written line by line: one line on a case that passed, three on a case that failed, a
line if the run was stopped, and a line with the numbers of both.
-/

namespace Dynval

/-! ### Lines -/

/-- The lines on a case. -/
def CaseReport.lines (r : CaseReport) : List String :=
  let name := r.suite ++ "::" ++ r.name
  match r.verdict with
  | .passed => ["PASS " ++ name]
  | .failed expected actual =>
    ["FAIL " ++ name, "  expected: " ++ expected, "    actual: " ++ actual]

namespace Report

/-- The lines of a report. -/
def lines (r : Report) : List String :=
  r.cases.flatMap CaseReport.lines ++
    (if r.stoppedEarly then ["stopped after first failure"] else []) ++
    [toString (r.cases.countP fun c => c.verdict = .passed) ++ " passed, " ++
      toString (r.cases.countP fun c => c.verdict ≠ .passed) ++ " failed"]

/-- The cases that did not pass failed. -/
lemma failed_eq (r : Report) : r.failed = r.cases.countP fun c => c.verdict ≠ .passed := by
  have hpassed : ∀ c : CaseReport, c.verdict ≠ .passed ↔ ¬c.passed := by
    simp [CaseReport.passed]
  have hlength := List.length_eq_countP_add_countP CaseReport.passed (l := r.cases)
  simp only [failed, passed, hpassed]
  omega

/-! ### Stopped runs -/

variable {reports : List CaseReport} {failFast : Bool}

def HasFailure (reports : List CaseReport) : Prop :=
  ∃ r ∈ reports, r.passed = false

/-- Whether reports are the shortest beginning of other reports that has a failure in it, or all of
them if none has. -/
structure UpToFailure (brief full : List CaseReport) : Prop where
  start : brief <+: full
  whole : ¬ HasFailure full → brief = full
  failure : HasFailure full → HasFailure brief
  shortest : ∀ other, other <+: full → HasFailure other → brief.length ≤ other.length

/-- The report of a run that comes upon the given reports. -/
def ofCases (failFast : Bool) : List CaseReport → Report
  | [] => ⟨[], false⟩
  | r :: rest =>
    if failFast && !r.passed then ⟨[r], true⟩
    else ⟨r :: (ofCases failFast rest).cases, (ofCases failFast rest).stoppedEarly⟩

lemma hasFailure_cons {r : CaseReport} :
    HasFailure (r :: reports) ↔ r.passed = false ∨ HasFailure reports := by
  simp [HasFailure]

/-- With a failure in front the run stops there. -/
lemma ofCases_of_failed {r : CaseReport} (hr : r.passed = false) :
    ofCases true (r :: reports) = ⟨[r], true⟩ := by
  simp [ofCases, hr]

/-- A case that passed changes nothing for those behind it. -/
lemma ofCases_of_passed {r : CaseReport} (hr : r.passed) :
    ofCases failFast (r :: reports) =
      ⟨r :: (ofCases failFast reports).cases, (ofCases failFast reports).stoppedEarly⟩ := by
  simp [ofCases, hr]

@[simp] lemma ofCases_false (reports : List CaseReport) :
    ofCases false reports = ⟨reports, false⟩ := by
  induction reports with
  | nil => rfl
  | cons r rest ih => simp [ofCases, ih]

/-- A run that may stop early does so exactly at a failure. -/
lemma stoppedEarly_ofCases_iff : (ofCases true reports).stoppedEarly ↔ HasFailure reports := by
  induction reports with
  | nil => simp [ofCases, HasFailure]
  | cons r rest ih =>
    rw [hasFailure_cons]
    cases hr : r.passed with
    | false => simp [ofCases_of_failed hr]
    | true => simp [ofCases_of_passed hr, ih]

/-- A run that did not stop reports all cases. -/
lemma cases_ofCases (h : (ofCases failFast reports).stoppedEarly = false) :
    (ofCases failFast reports).cases = reports := by
  induction reports with
  | nil => rfl
  | cons r rest ih =>
    unfold ofCases at h ⊢
    split_ifs at h ⊢
    rw [ih h]

/-- A run that stops in its first part does not come to the second. -/
lemma ofCases_append (reports more : List CaseReport) :
    ofCases failFast (reports ++ more) =
      if (ofCases failFast reports).stoppedEarly then ofCases failFast reports
      else ⟨reports ++ (ofCases failFast more).cases, (ofCases failFast more).stoppedEarly⟩ := by
  induction reports with
  | nil => rfl
  | cons r rest ih =>
    rw [List.cons_append, ofCases, ofCases, ih]
    split_ifs <;> simp_all

/-! ### The shortest beginning with a failure -/

/-- A run that may stop early reports up to its first failure. -/
lemma upToFailure_ofCases (reports : List CaseReport) :
    UpToFailure (ofCases true reports).cases reports := by
  induction reports with
  | nil => exact ⟨List.prefix_refl _, fun _ => rfl, id, fun other _ _ => Nat.zero_le _⟩
  | cons r rest ih =>
    cases hr : r.passed with
    | false =>
      rw [ofCases_of_failed hr]
      refine ⟨List.prefix_append [r] rest, fun h => absurd (hasFailure_cons.2 (.inl hr)) h,
        fun _ => hasFailure_cons.2 (.inl hr), fun other _ hother => ?_⟩
      obtain ⟨r', hr', -⟩ := hother
      exact List.length_pos_of_mem hr'
    | true =>
      have hfailure : ∀ {more}, HasFailure (r :: more) ↔ HasFailure more := by
        simp [hasFailure_cons, hr]
      rw [ofCases_of_passed hr]
      refine ⟨List.cons_prefix_cons.2 ⟨rfl, ih.start⟩, fun h => ?_, fun h => ?_,
        fun other hstart hother => ?_⟩
      · rw [ih.whole (mt hfailure.2 h)]
      · exact hfailure.2 (ih.failure (hfailure.1 h))
      · cases other with
        | nil => simp [HasFailure] at hother
        | cons r' other =>
          obtain ⟨rfl, htail⟩ := List.cons_prefix_cons.1 hstart
          exact Nat.succ_le_succ (ih.shortest other htail (hfailure.1 hother))

/-- A run succeeds when no case failed. -/
lemma isSuccess_iff {report : Report} : report.isSuccess ↔ ¬ HasFailure report.cases := by
  have hle : report.passed ≤ report.cases.length := List.countP_le_length
  have hcount : report.failed = 0 ↔ report.passed = report.cases.length := by
    rw [failed]
    omega
  rw [isSuccess, decide_eq_true_iff, hcount, passed, List.countP_eq_length]
  simp [HasFailure]

lemma isSuccess_ofCases_iff : (ofCases failFast reports).isSuccess ↔ ¬ HasFailure reports := by
  rw [isSuccess_iff, not_iff_not]
  cases failFast with
  | false => rw [ofCases_false]
  | true =>
    have hup := upToFailure_ofCases reports
    exact ⟨fun ⟨r, hr, hfailed⟩ => ⟨r, hup.start.subset hr, hfailed⟩, hup.failure⟩

end Report

end Dynval
