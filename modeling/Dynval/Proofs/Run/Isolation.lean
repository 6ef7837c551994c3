import Mathlib
import Dynval.Platform
import Dynval.Proofs.Literal.Eval
import Dynval.Proofs.Run.Report
import Dynval.Proofs.Text.Search
import Dynval.Run.Basic
import Dynval.Toml.Schema

/-!
# Isolation of test cases

Literals, cases and runs do above a store what they do alone. So what comes of a case is what comes
of it in the empty store, whatever ran before it, and a run of accepted suites reports just that for
each selected case.
-/

namespace Dynval

open Dynval.Action (Placed)

variable {base : Store}

/-! ### Judging -/

/-- A verdict does not depend on where containers are. -/
lemma Store.Embeds.judge [FloatPrinter] {s t : Store} {f : Ref → Ref} (h : s.Embeds t f)
    (expectation : Option Expectation) (result : Except Fault Value) :
    judge t expectation (Value.rename f <$> result) = judge s expectation result := by
  have hdescribe : describe t (Value.rename f <$> result) = describe s result := by
    cases result with
    | error e => rfl
    | ok v => exact h.repr v
  have hmet : ∀ e : Expectation, e.isMet t (Value.rename f <$> result) = e.isMet s result := by
    intro e
    cases result with
    | error fault => cases e <;> rfl
    | ok v =>
      cases e with
      | value text =>
        change decide ((v.rename f).repr t = text) = decide (v.repr s = text)
        rw [h.repr]
      | fault name => rfl
  cases expectation with
  | none => rw [Dynval.judge, Dynval.judge, hdescribe]
  | some e => rw [Dynval.judge, Dynval.judge, hdescribe, hmet]

/-! ### Cases -/

lemma Case.placed_evalArgs [Allocator] (c : Case) :
    Placed base (List.map base.move) c.evalArgs c.evalArgs :=
  Literal.placed_evals.2.2.2 c.args

namespace Config

/-- A case has one report above every store. -/
lemma placed_runCase [Platform] (config : Config) (suite : String) (c : Case) :
    Placed base id (config.runCase suite c) (config.runCase suite c) := by
  refine .bind (.mapError c.placed_evalArgs _) fun args => ?_
  refine .bind (.report _) fun _ => ?_
  refine .bind (.attempt (c.op.placed_apply args _)) fun result => ?_
  refine .bind (.query_same fun t => (base.embeds_above t).judge _ result) fun verdict => ?_
  cases verdict with
  | passed => exact .pure rfl
  | failed expected actual => exact .bind (.report _) fun _ => .pure rfl

end Config

namespace Case

/-- Whether a case says in one way what must come of it and has literals that have values. -/
def Usable [Allocator] (c : Case) : Prop :=
  c.expectation?.isSome ∧ ∃ args, (c.evalArgs .empty).result = .ok args

/-- A case without a problem says what must come of it. -/
lemma isSome_expectation? {c : Case} {earlier : List String} (h : c.problem? earlier = none) :
    c.expectation?.isSome := by
  unfold problem? at h
  split_ifs at h
  cases hc : c.expectation? with
  | none => simp [hc] at h
  | some e => rfl

/-- A case that is not refused can be used in every store. -/
lemma usable_of_check [Allocator] {c : Case} {earlier : List String} {s : Store} {u : Unit}
    (h : (c.check earlier s).result = .ok u) : c.Usable := by
  cases hproblem : c.problem? earlier with
  | some problem =>
    rw [check, hproblem] at h
    cases h
  | none =>
    rw [check, hproblem] at h
    obtain ⟨args, hargs, -⟩ := Action.exists_of_bind_ok h
    exact ⟨isSome_expectation? hproblem,
      c.placed_evalArgs.exists_ok (Action.mapError_ok_iff.1 hargs)⟩

/-- Whether the call of a case in the empty store returns a value with the expected text, or raises
a fault of the expected name. -/
def Passes [Platform] (c : Case) (config : Config) : Prop :=
  ∃ args, (c.evalArgs .empty).result = .ok args ∧
    let call := c.op.apply args (c.policy.getD config.policy) (c.evalArgs .empty).store
    (∃ v, call.result = .ok v ∧ c.expect = some (v.repr call.store)) ∨
      ∃ fault, call.result = .error fault ∧ c.raises = some fault.name

/-- A case passes by the text of its value or by the name of its fault. -/
lemma judge_eq_passed_iff [FloatPrinter] {c : Case} (hc : c.expectation?.isSome) (s : Store)
    (result : Except Fault Value) :
    judge s c.expectation? result = .passed ↔
      (∃ v, result = .ok v ∧ c.expect = some (v.repr s)) ∨
        ∃ fault, result = .error fault ∧ c.raises = some fault.name := by
  unfold expectation? at hc ⊢
  cases hexpect : c.expect <;> cases hraises : c.raises <;> cases result <;>
    simp_all [judge, Expectation.isMet, eq_comm]

end Case

namespace Suite

/-- Whether a suite is the answer of reading some text in some format. -/
def Accepted [Allocator] (suite : Suite) : Prop :=
  ∃ read? text source s, (parse read? text source s).result = .ok suite

lemma usable_of_checkCases [Allocator] {name : String} {earlier : List String} {cases : List Case}
    {s : Store} {u : Unit} (h : (checkCases name earlier cases s).result = .ok u) :
    ∀ c ∈ cases, c.Usable := by
  induction cases generalizing earlier s with
  | nil => simp
  | cons c cases ih =>
    obtain ⟨_, hc, hcases⟩ := Action.exists_of_bind_ok h
    exact List.forall_mem_cons.2 ⟨Case.usable_of_check (Action.mapError_ok_iff.1 hc), ih hcases⟩

/-- All cases of an accepted suite can be run. -/
lemma Accepted.usable [Allocator] {suite : Suite} (h : suite.Accepted) :
    ∀ c ∈ suite.cases, c.Usable := by
  obtain ⟨read?, text, source, s, h⟩ := h
  cases hread : read? text with
  | none =>
    rw [parse, hread] at h
    cases h
  | some read =>
    rw [parse, hread] at h
    obtain ⟨_, hcases, hrest⟩ := Action.exists_of_bind_ok h
    cases hrest
    exact usable_of_checkCases hcases

end Suite

/-! ### Runs -/

namespace Config

/-- Whether the full name of a case holds the text of the filter, if there is one. -/
def MatchesFilter (config : Config) (suite : Suite) (c : Case) : Prop :=
  ∀ text ∈ config.filter, text.toList <:+: (suite.name ++ "::" ++ c.name).toList

instance (config : Config) (suite : Suite) (c : Case) :
    Decidable (config.MatchesFilter suite c) :=
  inferInstanceAs (Decidable (∀ text ∈ config.filter, _ <:+: _))

/-- The cases that match the filter, suite by suite, in the order of each suite. -/
def selected (config : Config) (suites : List Suite) : List (Suite × Case) :=
  suites.flatMap fun suite =>
    (suite.cases.filter fun c => config.MatchesFilter suite c).map (Prod.mk suite)

/-- A case is selected by its full name. -/
lemma selects_iff (config : Config) (suite : Suite) (c : Case) :
    config.selects suite.name c.name ↔ config.MatchesFilter suite c := by
  unfold selects MatchesFilter
  cases config.filter with
  | none => simp
  | some text => simp [Text.contains_iff]

/-- Whether a report is what comes of a case of a suite, in the empty store and in every other. -/
structure Reports [Platform] (config : Config) (entry : Suite × Case) (report : CaseReport) :
    Prop where
  suite : report.suite = entry.1.name
  name : report.name = entry.2.name
  result : ∀ s, (config.runCase entry.1.name entry.2 s).result = .ok report
  passed_iff : report.verdict = .passed ↔ entry.2.Passes config

variable {config : Config}

/-- Stopping early makes no difference to a case. -/
lemma runCase_failFast [Platform] (config : Config) (failFast : Bool) :
    runCase { config with failFast } = config.runCase := rfl

lemma selects_failFast (config : Config) (failFast : Bool) :
    selects { config with failFast } = config.selects := rfl

/-- With arguments, a case reports the verdict on its call. -/
lemma runCase_of_evalArgs [Platform] (config : Config) (suite : String) {c : Case}
    {args : List Value} {s : Store} (h : (c.evalArgs s).result = .ok args) :
    let call := c.op.apply args (c.policy.getD config.policy) (c.evalArgs s).store
    (config.runCase suite c s).result =
      .ok ⟨suite, c.name, judge call.store c.expectation? call.result⟩ := by
  intro call
  have hargs : (c.evalArgs.mapError SuiteError.literal s).result = .ok args :=
    Action.mapError_ok_iff.2 h
  rw [runCase, Action.bind_of_ok hargs]
  cases hverdict : judge call.store c.expectation? call.result with
  | passed => simp [Action.bind_apply, Action.attempt, Action.mapError, call, hverdict]
  | failed expected actual =>
    simp [Action.bind_apply, Action.attempt, Action.mapError, call, hverdict, Except.map]

/-- A case that can be run has a report, the same in every store. -/
lemma exists_reports [Platform] (config : Config) (suite : Suite) {c : Case} (hc : c.Usable) :
    ∃ report, config.Reports (suite, c) report := by
  obtain ⟨hexpectation, args, hargs⟩ := hc
  -- the report of the empty store is the report of every store: it holds no address
  let call := c.op.apply args (c.policy.getD config.policy) (c.evalArgs .empty).store
  refine ⟨⟨suite.name, c.name, judge call.store c.expectation? call.result⟩, rfl, rfl,
    fun s => ?_, ?_⟩
  · rw [(config.placed_runCase suite.name c).result_eq]
    exact config.runCase_of_evalArgs suite.name hargs
  · rw [Case.judge_eq_passed_iff hexpectation, Case.Passes, hargs]
    simp [call]

/-- The cases of a suite are reported in the same way by a run that stops at a failure and by one
that goes on, as far as they come. -/
lemma exists_runCases_ofCases [Platform] (config : Config) (suite : Suite) {cases : List Case}
    (hcases : ∀ c ∈ cases, c.Usable) :
    ∃ reports, List.Forall₂ config.Reports
        ((cases.filter fun c => config.MatchesFilter suite c).map (Prod.mk suite)) reports ∧
      ∀ failFast s, (runCases { config with failFast } suite.name cases s).result =
        .ok (.ofCases failFast reports) := by
  induction cases with
  | nil => exact ⟨[], .nil, fun _ _ => rfl⟩
  | cons c cases ih =>
    obtain ⟨hc, hcases⟩ := List.forall_mem_cons.1 hcases
    obtain ⟨reports, hreports, hrun⟩ := ih hcases
    obtain ⟨report, hreport⟩ := config.exists_reports suite hc
    by_cases hfilter : config.MatchesFilter suite c
    · rw [List.filter_cons, if_pos (decide_eq_true hfilter), List.map_cons]
      refine ⟨report :: reports, .cons hreport hreports, fun failFast s => ?_⟩
      rw [runCases, selects_failFast, if_pos ((config.selects_iff suite c).2 hfilter),
        runCase_failFast, Action.bind_of_ok (hreport.result s), Report.ofCases]
      split_ifs
      · rfl
      · rw [Action.bind_of_ok (hrun failFast _)]
        rfl
    · rw [List.filter_cons, if_neg (by simpa using hfilter)]
      refine ⟨reports, hreports, fun failFast s => ?_⟩
      rw [runCases, selects_failFast, if_neg (mt (config.selects_iff suite c).1 hfilter)]
      exact hrun failFast s

/-- Suites are reported in the same way by a run that stops at a failure and by one that goes on, as
far as they come. -/
lemma exists_run_ofCases [Platform] (config : Config) {suites : List Suite}
    (husable : ∀ suite ∈ suites, ∀ c ∈ suite.cases, c.Usable) :
    ∃ reports, List.Forall₂ config.Reports (config.selected suites) reports ∧
      ∀ failFast s, (run { config with failFast } suites s).result =
        .ok (.ofCases failFast reports) := by
  induction suites with
  | nil => exact ⟨[], .nil, fun _ _ => rfl⟩
  | cons suite suites ih =>
    obtain ⟨hsuite, hsuites⟩ := List.forall_mem_cons.1 husable
    obtain ⟨reports, hreports, hrun⟩ := config.exists_runCases_ofCases suite hsuite
    obtain ⟨more, hmore, hrest⟩ := ih hsuites
    refine ⟨reports ++ more, List.rel_append hreports hmore, fun failFast s => ?_⟩
    rw [run, Action.bind_of_ok (hrun failFast s), Report.ofCases_append]
    split_ifs with hstopped
    · rfl
    · -- the event that the suite is finished leaves the store as it is
      change ((run _ suites >>= _) _).result = _
      rw [Action.bind_of_ok (hrest failFast _), Report.cases_ofCases (by simpa using hstopped)]
      rfl

/-- A run of accepted suites that goes on after failures reports for each selected case, in order,
what comes of that case in the empty store, whatever store the run starts in. -/
theorem run_reports_each_case_alone [Platform] (config : Config) (hfast : config.failFast = false)
    (suites : List Suite) (haccepted : ∀ suite ∈ suites, suite.Accepted) :
    ∃ reports, List.Forall₂ config.Reports (config.selected suites) reports ∧
      ∀ s, (config.run suites s).result = .ok ⟨reports, false⟩ := by
  obtain ⟨reports, hreports, hrun⟩ :=
    config.exists_run_ofCases fun suite hsuite => (haccepted suite hsuite).usable
  refine ⟨reports, hreports, fun s => ?_⟩
  rw [← Report.ofCases_false, ← hfast]
  exact hrun config.failFast s

section

attribute [local instance] Platform.standard

set_option maxRecDepth 10000 in
/-- A case that writes into its argument, run twice. It passes both times, and both lists that it
has written to are in the store in the end. -/
theorem run_reports_writes_alone :
    let config : Config := { filter := some "write" }
    let write : Case := ⟨"write", .setIndex,
      [.array [.boolean true], .boolean false, .boolean false], some "[False]", none, none⟩
    let suite : Suite := ⟨"rows", none, [write]⟩
    suite.Accepted ∧ config.selected [suite, suite] = [(suite, write), (suite, write)] ∧
      write.Passes config ∧
      (config.run [suite, suite] .empty).store =
        ⟨#[.list [.bool false], .list [.bool false]]⟩ ∧
      ∃ reports, List.Forall₂ config.Reports (config.selected [suite, suite]) reports ∧
        ∀ s, (config.run [suite, suite] s).result = .ok ⟨reports, false⟩ := by
  intro config write suite
  have haccepted : suite.Accepted := by
    refine ⟨fun text => (Toml.document? text).bind Suite.ofToml?,
      "name = \"rows\"\n[[case]]\nname = \"write\"\nop = \"set_index\"\n" ++
        "args = [[true], false, false]\nexpect = \"[False]\"", "rows", .empty, ?_⟩
    cbv
  have hmatches : config.MatchesFilter suite write := (config.selects_iff suite write).1 (by cbv)
  have hpasses : write.Passes config :=
    ⟨[.list ⟨0⟩, .bool false, .bool false], by cbv, Or.inl ⟨.list ⟨0⟩, by cbv, by cbv⟩⟩
  refine ⟨haccepted, by simp [selected, suite, hmatches], hpasses, by cbv, ?_⟩
  exact run_reports_each_case_alone config rfl [suite, suite] (by simpa using haccepted)

end

end Config

end Dynval
