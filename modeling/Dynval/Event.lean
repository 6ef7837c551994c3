import Dynval.Operation.Basic
import Dynval.Text.Numeral
import Dynval.Value.Basic

/-!
# Events

What operations and test runs report besides their results. `Event.line` is the text of an event:
its level, its message, and its fields in order.
-/

namespace Dynval

/-- How important an event is. -/
inductive Level where
  | trace
  | debug
  | info
  | warn
deriving DecidableEq, Inhabited

def Level.name : Level → String
  | .trace => "TRACE"
  | .debug => "DEBUG"
  | .info => "INFO"
  | .warn => "WARN"

/-- Something worth reporting. -/
inductive Event where
  /-- A text stands for no integer. -/
  | unreadableInt (text : String)
  /-- A text stands for no float. -/
  | unreadableFloat (text : String)
  /-- A read outside a container gave its default. -/
  | readDefaulted (kind : Kind) (index : Int64)
  /-- A write outside a container was dropped. -/
  | writeDropped (kind : Kind) (index : Int64)
  /-- A write under a key that is no key was dropped. -/
  | keyDropped (key : Kind)
  /-- A value that is no sequence was sliced. -/
  | notSliceable (kind : Kind)
  /-- A value that holds no items was iterated. -/
  | notIterable (kind : Kind)
  /-- A value is being repeated. -/
  | repeating (kind : Kind) (count : Nat)
  | suiteLoaded (suite : String) (cases : Nat) (source : String)
  | caseStarted (suite name : String) (op : Operation) (policy : Policy)
  | caseFailed (suite name expected actual : String)
  | suiteFinished (suite : String) (ran : Nat)
deriving DecidableEq, Inhabited

namespace Event

def level : Event → Level
  | unreadableInt _ | unreadableFloat _ | readDefaulted .. | writeDropped .. | keyDropped _
  | notSliceable _ | notIterable _ => .trace
  | repeating .. | suiteLoaded .. | caseStarted .. => .debug
  | suiteFinished .. => .info
  | caseFailed .. => .warn

def message : Event → String
  | unreadableInt _ => "to_int: unparsable string, using 0"
  | unreadableFloat _ => "to_float: unparsable string, using 0.0"
  | readDefaulted .. => "get_index: out of range, using default"
  | writeDropped .. => "set_index: write dropped"
  | keyDropped _ => "set_item: unhashable key dropped"
  | notSliceable _ => "slice: not a sequence"
  | notIterable _ => "items: not iterable, yielding nothing"
  | repeating .. => "list_repeat"
  | suiteLoaded .. => "loaded suite"
  | caseStarted .. => "running case"
  | caseFailed .. => "case failed"
  | suiteFinished .. => "suite finished"

/-- What it happened to. -/
def fields : Event → List (String × String)
  | unreadableInt text | unreadableFloat text => [("input", text)]
  | readDefaulted kind index | writeDropped kind index =>
    [("kind", kind.name), ("index", intText index.toInt)]
  | keyDropped key => [("key", key.name)]
  | notSliceable kind | notIterable kind => [("kind", kind.name)]
  | repeating kind count => [("kind", kind.name), ("count", toString count)]
  | suiteLoaded suite cases source =>
    [("suite", suite), ("cases", toString cases), ("source", source)]
  | caseStarted suite name op policy =>
    [("suite", suite), ("case", name), ("op", op.name), ("policy", policy.name)]
  | caseFailed suite name expected actual =>
    [("suite", suite), ("case", name), ("expected", expected), ("actual", actual)]
  | suiteFinished suite ran => [("suite", suite), ("ran", toString ran)]

def line (e : Event) : String :=
  e.fields.foldl (fun text (name, value) => text ++ " " ++ name ++ "=" ++ value)
    (e.level.name ++ " " ++ e.message)

end Event

end Dynval
