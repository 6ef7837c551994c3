import Dynval.Run.Config

/-!
# Invocations

How the program is called: a command, `run` or `list`, with options. Options of one value are given
once. An option's value stands in the next argument, or behind an equals sign; a short option's
value may follow it directly. The option `--log` can stand before the command as well.
-/

namespace Dynval

/-- The options that say which suites are loaded. -/
structure Selection where
  config : Option String := none
  suites : List String := []
  noBuiltin : Bool := false
deriving DecidableEq, Inhabited

structure RunOptions where
  selection : Selection := {}
  filter : Option String := none
  strict : Bool := false
  failFast : Bool := false
deriving DecidableEq, Inhabited

/-- What the program is asked to do. -/
inductive Command where
  | run (options : RunOptions)
  | list (selection : Selection)
deriving DecidableEq, Inhabited

/-- A call of the program. -/
structure Invocation where
  command : Command
  log : Option String := none
deriving DecidableEq, Inhabited

/-- Why a call is not carried out. -/
inductive Refusal where
  /-- The call asks for help. -/
  | help
  /-- The call does not follow the rules. -/
  | misuse
deriving DecidableEq, Inhabited

namespace Invocation

inductive Verb where
  | run
  | list
deriving DecidableEq, Inhabited

def Verb.ofName? (name : String) : Option Verb :=
  if name = "run" then some .run
  else if name = "list" ∨ name = "ls" then some .list
  else none

inductive Flag where
  | help
  | log
  | config
  | suite
  | noBuiltin
  | filter
  | strict
  | failFast
deriving DecidableEq, Inhabited

namespace Flag

def takesValue : Flag → Bool
  | log | config | suite | filter => true
  | help | noBuiltin | strict | failFast => false

def ofLong? (name : String) : Option Flag :=
  [("help", help), ("log", log), ("config", config), ("suite", suite),
    ("no-builtin", noBuiltin), ("filter", filter), ("strict", strict),
    ("fail-fast", failFast)].lookup name

def ofShort? (letter : Char) : Option Flag :=
  [('h', help), ('c', config), ('s', suite), ('f', filter)].lookup letter

/-- Whether an option can stand behind a command, or before all commands. -/
def isAllowed : Option Verb → Flag → Bool
  | _, help | _, log => true
  | some _, config | some _, suite | some _, noBuiltin => true
  | some .run, filter | some .run, strict | some .run, failFast => true
  | _, _ => false

end Flag

/-- An option as it is written, with the value that is attached to it. -/
structure Written where
  flag : Flag
  value : Option String
deriving DecidableEq, Inhabited

/-- The value attached to a short option. -/
def attached? : List Char → Option String
  | [] => none
  | '=' :: cs => some (String.ofList cs)
  | cs => some (String.ofList cs)

/-- Read an argument that starts with a dash. -/
def Written.ofArg? (arg : String) : Option Written :=
  match arg.toList with
  | '-' :: '-' :: cs => do
    let flag ← Flag.ofLong? (String.ofList (cs.takeWhile (· != '=')))
    match cs.dropWhile (· != '=') with
    | [] => some ⟨flag, none⟩
    | _ :: value => some ⟨flag, some (String.ofList value)⟩
  | '-' :: c :: cs => do
    let flag ← Flag.ofShort? c
    some ⟨flag, if flag.takesValue then attached? cs else none⟩
  | _ => none

/-- Whether an argument is taken for an option. -/
def isOption (arg : String) : Bool :=
  arg.toList.head? = some '-' && arg != "-"

structure Options where
  run : RunOptions := {}
  log : Option String := none
deriving Inhabited

/-- Set a value that is not set yet. -/
def setOnce (old : Option String) (value : String) : Except Refusal (Option String) :=
  if old.isSome then .error .misuse else .ok (some value)

/-- A path, which is not empty. -/
def path (value : String) : Except Refusal String :=
  if value.isEmpty then .error .misuse else .ok value

/-- Raise a flag that is not raised yet. -/
def raise (old : Bool) : Except Refusal Bool :=
  if old then .error .misuse else .ok true

/-- Take an option with a value. -/
def Options.setValue (o : Options) (flag : Flag) (value : String) : Except Refusal Options := do
  let selection := o.run.selection
  match flag with
  | .log => return { o with log := ← setOnce o.log value }
  | .filter => return { o with run.filter := ← setOnce o.run.filter value }
  | .config =>
    return { o with run.selection.config := ← setOnce selection.config (← path value) }
  | .suite =>
    return { o with run.selection.suites := selection.suites ++ [← path value] }
  | _ => .error .misuse

/-- Take an option without a value. -/
def Options.set (o : Options) : Flag → Except Refusal Options
  | .help => .error .help
  | .noBuiltin => return { o with run.selection.noBuiltin := ← raise o.run.selection.noBuiltin }
  | .strict => return { o with run.strict := ← raise o.run.strict }
  | .failFast => return { o with run.failFast := ← raise o.run.failFast }
  | _ => .error .misuse

/-- Read options up to an argument that is none. -/
def readOptions (verb : Option Verb) (o : Options) :
    List String → Except Refusal (Options × List String)
  | [] => .ok (o, [])
  | arg :: rest =>
    if arg = "--" ∨ !isOption arg then .ok (o, arg :: rest)
    else
      match Written.ofArg? arg with
      | none => .error .misuse
      | some ⟨flag, value⟩ =>
        if !flag.isAllowed verb then .error .misuse
        else
          match flag.takesValue, value, rest with
          | true, some value, rest => do readOptions verb (← o.setValue flag value) rest
          | true, none, value :: rest =>
            if isOption value then .error .misuse
            else do readOptions verb (← o.setValue flag value) rest
          | true, none, [] => .error .misuse
          | false, none, rest => do readOptions verb (← o.set flag) rest
          | false, some _, _ => .error .misuse

/-- What a call for help on a command comes to. -/
def helpFor : List String → Refusal
  | [] => .help
  | [name] => if name = "help" ∨ (Verb.ofName? name).isSome then .help else .misuse
  | _ => .misuse

/-- Read the arguments of the program. -/
def ofArgs (args : List String) : Except Refusal Invocation := do
  let (outer, rest) ← readOptions none {} args
  match rest with
  | [] => .error .misuse
  | "help" :: about => .error (helpFor about)
  | name :: rest =>
    match Verb.ofName? name with
    | none => .error .misuse
    | some verb =>
      let (o, rest) ← readOptions (some verb) {} rest
      if rest = [] ∨ rest = ["--"] then
        let log := o.log.or outer.log
        match verb with
        | .run => return ⟨.run o.run, log⟩
        | .list => return ⟨.list o.run.selection, log⟩
      else .error .misuse

end Invocation

end Dynval
