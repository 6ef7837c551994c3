import Dynval.Suite.Basic

/-!
# Configuration of test runs
-/

namespace Dynval

/-- How suites are run, and which. -/
structure Config where
  policy : Policy := .lenient
  /-- Whether the run stops at the first failing case. -/
  failFast : Bool := false
  /-- A text that the full names of the cases to run hold. -/
  filter : Option String := none
  suites : List String := []
  includeBuiltin : Bool := true
deriving DecidableEq, Inhabited

namespace Config

/-- Whether a case is run. -/
def selects (config : Config) (suite name : String) : Bool :=
  match config.filter with
  | none => true
  | some text => Text.contains (suite ++ "::" ++ name) text

/-- The configuration with its suites seen from the directory of its own file. -/
def resolve (path : String) (config : Config) : Config :=
  match Path.parent? path with
  | none => config
  | some directory => { config with suites := config.suites.map (Path.join directory) }

/-- The configuration in a file; `read?` knows the format. -/
def load (read? : String → Option Config) (files : Files) (path : String) :
    Except SuiteError Config :=
  match files path with
  | .error failure => .error (.unreadable path failure)
  | .ok text =>
    match read? text with
    | some config => .ok (config.resolve path)
    | none => .error (.malformed path)

end Config

/-- What the program reads: the files by their paths, and the suite and the configuration that a
text holds. -/
structure Host where
  files : Files
  suite? : String → Option Suite
  config? : String → Option Config

end Dynval
