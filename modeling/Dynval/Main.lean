import Dynval.CommandLine.Perform
import Dynval.Platform
import Dynval.Toml.Schema

/-!
# The program

Reads the files that a call names, carries the call out, and writes what came of it.
-/

namespace Dynval.Main

/-- Why the system could not read a file. -/
def failureOf : IO.Error → ReadFailure
  | .noFileOrDirectory .. => .missing
  | .inappropriateType _ code details =>
    if code = 21 then .directory
    else if code = 20 then .notDirectory
    else .other details
  | .invalidArgument _ code details => if code = 36 then .tooLong else .other details
  | e => .other (toString e)

def readText (path : String) : IO (Except ReadFailure String) := do
  if let some failure := pathFailure? path then
    return .error failure
  try
    match String.fromUTF8? (← IO.FS.readBinFile path) with
    | some text => return .ok text
    | none => return .error (.other "stream did not contain valid UTF-8")
  catch e => return .error (failureOf e)

/-- Read files, and answer their texts by their paths. -/
def readTexts (paths : List String) : IO (List (String × Except ReadFailure String)) :=
  paths.mapM fun path => return (path, ← readText path)

def filesOf (texts : List (String × Except ReadFailure String)) : Files :=
  fun path => (texts.lookup path).getD (.error .missing)

def configPath? : Command → Option String
  | .run options => options.selection.config
  | .list selection => selection.config

def perform (invocation : Invocation) : IO UInt32 := do
  let command := invocation.command
  let configs ← readTexts (configPath? command).toList
  let suites ← match command.config? (.toml (filesOf configs)) with
    | .ok config => readTexts config.suites
    | .error _ => pure []
  let completion := @Command.complete .standard (.toml (filesOf (configs ++ suites))) command
  for event in completion.events do
    if (shownLevels invocation.log).contains event.level then
      IO.eprintln event.line
  IO.print completion.output
  if let some e := completion.error then
    IO.eprintln ("error: " ++ e.message)
  return UInt32.ofNat completion.exitCode

end Dynval.Main

/-- Run or list test suites. -/
def main (args : List String) : IO UInt32 := do
  match Dynval.Invocation.ofArgs args with
  | .ok invocation => Dynval.Main.perform invocation
  | .error .help =>
    IO.print Dynval.usage
    return 0
  | .error .misuse =>
    IO.eprint Dynval.usage
    return 2
