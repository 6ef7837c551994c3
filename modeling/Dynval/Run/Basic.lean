import Dynval.Operation.Apply
import Dynval.Run.Config

/-!
# Running suites

The selected cases run one after another, suite by suite. A failing case does not end the run,
unless the configuration says so. The report tells what came of each case.
-/

namespace Dynval

/-! ### Reports -/

/-- What came of a case. -/
inductive Verdict where
  | passed
  | failed (expected actual : String)
deriving DecidableEq, Inhabited

/-- What came of a case of a suite. -/
structure CaseReport where
  suite : String
  name : String
  verdict : Verdict
deriving DecidableEq, Inhabited

namespace CaseReport

def passed (r : CaseReport) : Bool :=
  r.verdict = .passed

/-- What is written on a case, with the ends of its lines. -/
def text (r : CaseReport) : String :=
  match r.verdict with
  | .passed => "PASS " ++ r.suite ++ "::" ++ r.name ++ "\n"
  | .failed expected actual =>
    "FAIL " ++ r.suite ++ "::" ++ r.name ++ "\n  expected: " ++ expected ++
      "\n    actual: " ++ actual ++ "\n"

end CaseReport

/-- What came of a run, in the order of the cases. -/
structure Report where
  cases : List CaseReport := []
  /-- Whether a failing case ended the run. -/
  stoppedEarly : Bool := false
deriving DecidableEq, Inhabited

namespace Report

def passed (r : Report) : Nat :=
  r.cases.countP CaseReport.passed

def failed (r : Report) : Nat :=
  r.cases.length - r.passed

def isSuccess (r : Report) : Bool :=
  r.failed = 0

def failures (r : Report) : List CaseReport :=
  r.cases.filter fun c => !c.passed

/-- The text of a report: what is written on every case, and how many passed and failed. -/
def text (r : Report) : String :=
  String.join (r.cases.map CaseReport.text) ++
    (if r.stoppedEarly then "stopped after first failure\n" else "") ++
    toString r.passed ++ " passed, " ++ toString r.failed ++ " failed"

end Report

/-! ### Runs -/

/-- What a call came to, in words. -/
def describe [FloatPrinter] (s : Store) : Except Fault Value → String
  | .ok v => v.repr s
  | .error f => "raises " ++ f.name ++ ": " ++ f.message

namespace Expectation

/-- Whether a call came to what was expected. -/
def isMet [FloatPrinter] (s : Store) : Expectation → Except Fault Value → Bool
  | .value text, .ok v => v.repr s = text
  | .fault name, .error f => f.name = name
  | _, _ => false

def describe : Expectation → String
  | .value text => text
  | .fault name => "raises " ++ name

end Expectation

/-- The verdict on a call. -/
def judge [FloatPrinter] (s : Store) (expectation : Option Expectation)
    (result : Except Fault Value) : Verdict :=
  match expectation with
  | none => .failed "an expectation" (describe s result)
  | some e => if e.isMet s result then .passed else .failed e.describe (describe s result)

namespace Config

variable [Platform]

def runCase (config : Config) (suite : String) (c : Case) : Action SuiteError CaseReport := do
  let args ← c.evalArgs.mapError .literal
  let policy := c.policy.getD config.policy
  Action.report [.caseStarted suite c.name c.op policy]
  let result ← (c.op.apply args policy).attempt
  let verdict ← Action.query fun s => judge s c.expectation? result
  match verdict with
  | .passed => pure ()
  | .failed expected actual => Action.report [.caseFailed suite c.name expected actual]
  return ⟨suite, c.name, verdict⟩

/-- Run the selected cases of a suite. -/
def runCases (config : Config) (suite : String) : List Case → Action SuiteError Report
  | [] => return ⟨[], false⟩
  | c :: rest => do
    if config.selects suite c.name then
      let report ← config.runCase suite c
      if config.failFast && !report.passed then
        return ⟨[report], true⟩
      else
        let more ← runCases config suite rest
        return ⟨report :: more.cases, more.stoppedEarly⟩
    else runCases config suite rest

def run (config : Config) : List Suite → Action SuiteError Report
  | [] => return ⟨[], false⟩
  | suite :: rest => do
    let report ← config.runCases suite.name suite.cases
    if report.stoppedEarly then
      return report
    else
      Action.report [.suiteFinished suite.name report.cases.length]
      let more ← run config rest
      return ⟨report.cases ++ more.cases, more.stoppedEarly⟩

end Config

end Dynval
