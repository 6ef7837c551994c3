import Dynval.CommandLine.Invocation
import Dynval.Run.Basic
import Dynval.Suite.Core

/-!
# Carrying out commands

A command loads its configuration and then all its suites, in order: the built-in one, those of the
configuration, those of the command line. Nothing is written unless everything could be loaded.
-/

namespace Dynval

namespace Selection

/-- The configuration that the options lead to. -/
def config? (host : Host) (selection : Selection) : Except SuiteError Config := do
  let base ← match selection.config with
    | some path => Config.load host.config? host.files path
    | none => .ok {}
  return { base with
    suites := base.suites ++ selection.suites
    includeBuiltin := base.includeBuiltin && !selection.noBuiltin }

end Selection

namespace RunOptions

def config? (host : Host) (options : RunOptions) : Except SuiteError Config := do
  let base ← options.selection.config? host
  return { base with
    filter := options.filter.or base.filter
    policy := if options.strict then .strict else base.policy
    failFast := base.failFast || options.failFast }

end RunOptions

def Command.config? (host : Host) : Command → Except SuiteError Config
  | .run options => options.config? host
  | .list selection => selection.config? host

namespace Config

def loadFiles [Allocator] (host : Host) : List String → Action SuiteError (List Suite)
  | [] => return []
  | path :: rest => do
    let suite ← Suite.load host.suite? host.files path
    return suite :: (← loadFiles host rest)

/-- Load all suites of a configuration. -/
def loadSuites [Allocator] (host : Host) (config : Config) : Action SuiteError (List Suite) := do
  if config.includeBuiltin then
    let builtin ← Suite.builtin
    return builtin :: (← loadFiles host config.suites)
  else loadFiles host config.suites

end Config

/-- The lines of a list of the cases of a suite. -/
def Suite.listing (suite : Suite) : List String :=
  let head := suite.name ++ " (" ++ toString suite.cases.length ++ " cases)"
  let head := match suite.description with
    | some text => head ++ ": " ++ text
    | none => head
  head :: suite.cases.map fun c => "  " ++ c.name ++ " [" ++ c.op.name ++ "]"

/-- What a command writes, and whether all went well. -/
structure Product where
  output : String
  success : Bool
deriving DecidableEq, Inhabited

/-- Lines, each with its end. -/
def linesText (lines : List String) : String :=
  String.join (lines.map (· ++ "\n"))

/-- Carry out a command. -/
def Command.perform [Platform] (host : Host) (command : Command) :
    Action SuiteError Product := do
  let config ← Action.check fun _ => command.config? host
  let suites ← config.loadSuites host
  match command with
  | .run _ =>
    let report ← config.run suites
    return ⟨report.text ++ "\n", report.isSuccess⟩
  | .list _ => return ⟨linesText (suites.flatMap Suite.listing), true⟩

structure Completion where
  exitCode : Nat
  output : String := ""
  error : Option SuiteError := none
  events : List Event := []
deriving Inhabited

/-- Carry out a command on new containers. -/
def Command.complete [Platform] (host : Host) (command : Command) : Completion :=
  let o := command.perform host .empty
  match o.result with
  | .ok product =>
    { exitCode := if product.success then 0 else 1
      output := product.output
      events := o.events }
  | .error e => { exitCode := 2, error := some e, events := o.events }

def usage : String :=
  linesText [
    "Usage: run  [-c FILE] [-s FILE]... [--no-builtin] [-f TEXT] [--strict] [--fail-fast]",
    "       list [-c FILE] [-s FILE]... [--no-builtin]",
    "Both take --log LEVEL: trace, debug, info, warn, error or off."]

/-- The levels of the events that are shown, for a value of the option on logging. -/
def shownLevels (log : Option String) : List Level :=
  match log.getD "warn" with
  | "off" | "error" => []
  | "info" => [.warn, .info]
  | "debug" => [.warn, .info, .debug]
  | "trace" => [.warn, .info, .debug, .trace]
  | _ => [.warn]

/-- Carry out a call of the program; `read` knows how it is called. -/
def completeArgs [Platform] (read : List String → Except Refusal Invocation) (host : Host)
    (args : List String) : Completion :=
  match read args with
  | .ok invocation => invocation.command.complete host
  | .error .help => { exitCode := 0, output := usage }
  | .error .misuse => { exitCode := 2 }

end Dynval
