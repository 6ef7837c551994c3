import Dynval.Files
import Dynval.Literal

/-!
# Test suites

A suite is a list of named cases. A case calls an operation on literals and says what must come of
it: a value with a given text, or a fault of a given name.

A suite is accepted if its case names differ and every case has one expectation, the name of a
fault if it expects one, as many arguments as its operation takes, and literals that have values.
The first case that breaks a rule, and its first rule in that order, is reported.
-/

namespace Dynval

/-- What must come of a case. -/
inductive Expectation where
  /-- The call returns a value with this text. -/
  | value (text : String)
  /-- The call fails with a fault of this name. -/
  | fault (name : String)
deriving DecidableEq, Inhabited

structure Case where
  name : String
  op : Operation
  args : List Toml := []
  expect : Option String := none
  raises : Option String := none
  /-- The policy for subscripts, if the case does not leave it to the run. -/
  policy : Option Policy := none
deriving Inhabited

namespace Case

/-- What must come of a case, if it says so in exactly one way. -/
def expectation? (c : Case) : Option Expectation :=
  match c.expect, c.raises with
  | some text, none => some (.value text)
  | none, some name => some (.fault name)
  | _, _ => none

/-- New values for the arguments of a case. -/
def evalArgs [Allocator] (c : Case) : Action LiteralError (List Value) :=
  Literal.evalItems c.args

end Case

structure Suite where
  name : String
  description : Option String := none
  cases : List Case := []
deriving Inhabited

/-- The names of faults that a case can expect. -/
def Case.faultNames : List String :=
  ["DivisionByZero", "ValueError", "TypeError", "IndexError", "KeyError", "OverflowError",
    "MemoryError", "Io"]

/-- Why a case cannot be used. -/
inductive CaseProblem where
  | duplicateName
  | noExpectation
  | unknownFault (name : String)
  | wrongArity (op : Operation) (count : Nat)
  | literal (e : LiteralError)
deriving Inhabited

def CaseProblem.message : CaseProblem → String
  | duplicateName => "duplicate case name"
  | noExpectation => "exactly one of 'expect' or 'raises' is required"
  | unknownFault name =>
    "unknown error kind '" ++ name ++ "', expected one of " ++
      String.intercalate ", " Case.faultNames
  | wrongArity op count =>
    "'" ++ op.name ++ "' takes " ++ op.arity.text ++ " arguments, got " ++ toString count
  | literal e => e.message

/-- Why suites or a configuration cannot be used. -/
inductive SuiteError where
  | unreadable (path : String) (failure : ReadFailure)
  /-- A text is no TOML document, or its entries are not the expected ones. -/
  | malformed (source : String)
  | invalidCase (suite name : String) (problem : CaseProblem)
  | literal (e : LiteralError)
deriving Inhabited

def SuiteError.message : SuiteError → String
  | unreadable path failure => "Cannot read " ++ path ++ ": " ++ failure.message
  | malformed source => "Malformed " ++ source ++ ": not the expected TOML document"
  | invalidCase suite name problem =>
    "Invalid case '" ++ name ++ "' in suite '" ++ suite ++ "': " ++ problem.message
  | literal e => e.message

/-! ### Checking -/

namespace Case

/-- The first problem of a case that shows without its literals; `earlier` are the names of the
cases before it. -/
def problem? (earlier : List String) (c : Case) : Option CaseProblem :=
  if c.name ∈ earlier then some .duplicateName
  else
    match c.expectation? with
    | none => some .noExpectation
    | some (.fault name) =>
      if name ∈ faultNames then arityProblem? else some (.unknownFault name)
    | some (.value _) => arityProblem?
where
  /-- A wrong number of arguments. -/
  arityProblem? : Option CaseProblem :=
    if c.op.arity.accepts c.args.length then none else some (.wrongArity c.op c.args.length)

/-- Refuse a case that breaks a rule. -/
def check [Allocator] (earlier : List String) (c : Case) : Action CaseProblem Unit :=
  match c.problem? earlier with
  | some problem => Action.fail problem
  | none => do
    let _ ← c.evalArgs.mapError .literal

end Case

namespace Suite

variable [Allocator]

def checkCases (suite : String) (earlier : List String) : List Case → Action SuiteError Unit
  | [] => return ()
  | c :: rest => do
    (c.check earlier).mapError (.invalidCase suite c.name)
    checkCases suite (c.name :: earlier) rest

/-- Accept a suite from a source, or refuse it. -/
def accept (source : String) (suite : Suite) : Action SuiteError Suite := do
  checkCases suite.name [] suite.cases
  Action.report [.suiteLoaded suite.name suite.cases.length source]
  return suite

/-- The suite in a text; `read?` knows the format. The source names the text in messages. -/
def parse (read? : String → Option Suite) (text source : String) : Action SuiteError Suite :=
  match read? text with
  | some suite => suite.accept source
  | none => Action.fail (.malformed source)

def load (read? : String → Option Suite) (files : Files) (path : String) :
    Action SuiteError Suite :=
  match files path with
  | .ok text => parse read? text path
  | .error failure => Action.fail (.unreadable path failure)

end Suite

end Dynval
