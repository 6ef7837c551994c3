import Dynval.Platform
import Dynval.Proofs.Run.Isolation

/-!
# Runs that stop at a failure

A run of accepted suites that stops at the first failing case reports the beginning of what the
same run reports when it goes on, up to the first failure.
-/

namespace Dynval.Config

variable {config : Config}

/-- A report shows a failure exactly when a case does not pass. -/
lemma hasFailure_iff [Platform] {entries : List (Suite × Case)} {reports : List CaseReport}
    (h : List.Forall₂ config.Reports entries reports) :
    Report.HasFailure reports ↔ ∃ entry ∈ entries, ¬ entry.2.Passes config := by
  induction h with
  | nil => simp [Report.HasFailure]
  | @cons entry report entries reports hreport _ ih =>
    rw [Report.hasFailure_cons, ih, List.exists_mem_cons_iff, ← hreport.passed_iff]
    simp [CaseReport.passed]

/-- A run of accepted suites that stops at a failure reports the shortest beginning with a failure
in it of what the run that goes on reports, or all of it when no case fails; that run reports all
selected cases. It is marked as stopped just when a selected case fails, and both runs agree on
whether all went well. -/
theorem failFast_reports_up_to_failure [Platform] (config : Config) (suites : List Suite)
    (haccepted : ∀ suite ∈ suites, suite.Accepted) :
    ∃ full brief : Report,
      (∀ s, (run { config with failFast := false } suites s).result = .ok full) ∧
      (∀ s, (run { config with failFast := true } suites s).result = .ok brief) ∧
      List.Forall₂ config.Reports (config.selected suites) full.cases ∧
      Report.UpToFailure brief.cases full.cases ∧
      full.stoppedEarly = false ∧
      (brief.stoppedEarly ↔ ∃ entry ∈ config.selected suites, ¬ entry.2.Passes config) ∧
      brief.isSuccess = full.isSuccess := by
  obtain ⟨reports, hreports, hrun⟩ :=
    config.exists_run_ofCases fun suite hsuite => (haccepted suite hsuite).usable
  refine ⟨_, _, hrun false, hrun true, ?_, ?_, ?_, ?_, ?_⟩
  · rwa [Report.ofCases_false]
  · rw [Report.ofCases_false]
    exact Report.upToFailure_ofCases reports
  · rw [Report.ofCases_false]
  · rw [Report.stoppedEarly_ofCases_iff, hasFailure_iff hreports]
  · rw [Bool.eq_iff_iff, Report.isSuccess_ofCases_iff, Report.isSuccess_ofCases_iff]

section

attribute [local instance] Platform.standard

set_option maxRecDepth 10000 in
/-- A case that fails before one that passes. -/
theorem failFast_stops_before_second_case :
    let fails : Case := ⟨"a", .print, [], some "", none, none⟩
    let passes : Case := ⟨"b", .print, [], some "''", none, none⟩
    let suite : Suite := ⟨"s", none, [fails, passes]⟩
    let config : Config := {}
    suite.Accepted ∧ ¬ fails.Passes config ∧ ∃ full brief : Report,
      (∀ s, (run { config with failFast := false } [suite] s).result = .ok full) ∧
      (∀ s, (run { config with failFast := true } [suite] s).result = .ok brief) ∧
      Report.UpToFailure brief.cases full.cases ∧
      full.stoppedEarly = false ∧ brief.stoppedEarly := by
  intro fails passes suite config
  have haccepted : suite.Accepted := by
    refine ⟨fun text => (Toml.document? text).bind Suite.ofToml?,
      "name=\"s\"\n[[case]]\nname=\"a\"\nop=\"print\"\nexpect=\"\"\n" ++
        "[[case]]\nname=\"b\"\nop=\"print\"\nexpect=\"''\"", "s", .empty, ?_⟩
    subst fails passes suite
    cbv
  have hcall : (Operation.apply .print [] .lenient .empty).result = .ok (.str "") := by cbv
  have hrepr : ∀ s, (Value.str "").repr s ≠ "" := by
    intro s
    have hchars : (Value.str "").chars s = Text.quoteText "" := by
      simp [Value.chars, Value.view, Value.viewBelow, Datum.text]
    rw [Value.repr_eq, hchars]
    decide
  have hfails : ¬ fails.Passes config := by
    rintro ⟨args, hargs, ⟨v, hv, hexpect⟩ | ⟨fault, -, hraises⟩⟩
    · obtain rfl : [] = args := Except.ok.inj hargs
      obtain rfl : .str "" = v := Except.ok.inj (hcall.symm.trans hv)
      exact hrepr _ (Option.some.inj hexpect).symm
    · cases hraises
  obtain ⟨full, brief, hfull, hbrief, -, hup, hstopped, hiff, -⟩ :=
    failFast_reports_up_to_failure config [suite] (by simpa using haccepted)
  have hselected : (suite, fails) ∈ config.selected [suite] := by
    simp [selected, MatchesFilter, suite, config]
  exact ⟨haccepted, hfails, full, brief, hfull, hbrief, hup, hstopped,
    hiff.2 ⟨_, hselected, hfails⟩⟩

end

end Dynval.Config
