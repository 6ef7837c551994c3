import Dynval.Toml.Reader

/-!
# TOML documents

A document is a sequence of lines: entries, and headers that open a table or add a table to an
array of tables. `Toml.document?` is the table that a document denotes.

A table is *implicit* while it exists only because something inside it was named, and *dotted* if
dotted keys made it. A header can open an implicit table that is not dotted, once; dotted keys can
extend a dotted table.
-/

namespace Dynval.Toml

/-- What stands under a key while a document is read. -/
inductive Node where
  | value (v : Toml)
  | table (implicit dotted : Bool) (entries : List (String × Node))
  /-- An array of tables: the tables before the last one, and the entries of the last one. -/
  | tables (before : List Node) (last : List (String × Node))
deriving Inhabited

/-- The entries of a table that is being built. -/
abbrev Branch := List (String × Node)

namespace Node

def toToml : Node → Toml
  | .value v => v
  | .table _ _ entries => .table (entries.map fun e => (e.1, toToml e.2))
  | .tables before last =>
    .array (before.map toToml ++ [.table (last.map fun e => (e.1, toToml e.2))])
decreasing_by
  all_goals
    rename_i h
    have := List.sizeOf_lt_of_mem h
    try cases e
    simp only [Node.table.sizeOf_spec, Node.tables.sizeOf_spec, Prod.mk.sizeOf_spec] at *
    omega

end Node

namespace Branch

def put (key : String) (node : Node) : Branch → Branch
  | [] => [(key, node)]
  | (k, n) :: rest => if k = key then (k, node) :: rest else (k, n) :: put key node rest

/-- Change the entries of the table at a path, making the tables on the way. `dotted` says whether
the path is part of a dotted key: then only implicit tables may be entered. The change is told
whether the table at the end of the path is dotted. -/
def update (dotted : Bool) (change : Bool → Branch → Option Branch) :
    List String → Bool → Branch → Option Branch
  | [], isDotted, branch => change isDotted branch
  | key :: path, _, branch =>
    match branch.lookup key with
    | none => do
      let inner ← update dotted change path dotted []
      some (put key (.table true dotted inner) branch)
    | some (.value _) => none
    | some (.table implicit isDotted entries) =>
      if dotted && !implicit then none
      else do
        let inner ← update dotted change path isDotted entries
        some (put key (.table implicit isDotted inner) branch)
    | some (.tables before last) => do
      let inner ← update dotted change path false last
      some (put key (.tables before inner) branch)

def putLast (key : String) (node : Node) (branch : Branch) : Branch :=
  branch.filter (fun e => e.1 != key) ++ [(key, node)]

/-- Open the table of a header. A table that is there already moves behind its neighbours. -/
def openTable (path : List String) (key : String) : Branch → Option Branch :=
  update false (fun _ branch =>
    match branch.lookup key with
    | none => some (put key (.table false false []) branch)
    | some (.table true false entries) => some (putLast key (.table false false entries) branch)
    | _ => none) path false

/-- Add a table to the array of tables of a header. -/
def addTable (path : List String) (key : String) : Branch → Option Branch :=
  update false (fun _ branch =>
    match branch.lookup key with
    | none => some (put key (.tables [] []) branch)
    | some (.tables before last) =>
      some (put key (.tables (before ++ [.table false false last]) []) branch)
    | _ => none) path false

/-- Set an entry under a dotted key, in the table at a path. -/
def setEntry (table path : List String) (key : String) (v : Toml) : Branch → Option Branch :=
  update false (fun _ branch =>
    update true (fun isDotted branch =>
      if isDotted == path.isEmpty || (branch.lookup key).isSome then none
      else some (put key (.value v) branch)) path false branch) table false

end Branch

/-- The parts of a path before its last part, and the last part. -/
def splitLast? (path : List String) : Option (List String × String) := do
  some (path.dropLast, ← path.getLast?)

/-- Read one line after its blanks. The state is the document so far and the path of the table that
is open. -/
def readLine (root : Branch) (current : List String) (cs : List Char) :
    Option (Branch × List String × List Char) :=
  match cs with
  | '[' :: '[' :: cs => do
    let (path, cs) ← readKey cs
    let (front, key) ← splitLast? path
    let cs ← restOfLine? (← after? ']' (← after? ']' cs))
    some (← root.addTable front key, path, cs)
  | '[' :: cs => do
    let (path, cs) ← readKey cs
    let (front, key) ← splitLast? path
    let cs ← restOfLine? (← after? ']' cs)
    some (← root.openTable front key, path, cs)
  | _ => do
    let (path, cs) ← readKey cs
    let (front, key) ← splitLast? path
    let (v, cs) ← value? (skipBlanks (← after? '=' cs))
    some (← root.setEntry current front key v, current, ← restOfLine? cs)

def readLines : Nat → Branch → List String → List Char → Option Branch
  | 0, _, _, _ => none
  | fuel + 1, root, current, cs =>
    match skipBlanks cs with
    | [] => some root
    | c :: cs =>
      match restOfLine? (c :: cs) with
      | some cs => readLines fuel root current cs
      | none => do
        let (root, current, cs) ← readLine root current (c :: cs)
        readLines fuel root current cs

/-- What follows a byte order mark, which may be missing. -/
def skipMark : List Char → List Char
  | '\uFEFF' :: cs => cs
  | cs => cs

/-- The table that a document denotes. -/
def document? (text : String) : Option Toml := do
  let cs := skipMark text.toList
  let root ← readLines (cs.length + 1) [] [] cs
  some (Node.table false false root).toToml

end Dynval.Toml
