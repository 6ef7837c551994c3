import Dynval.Run.Config
import Dynval.Toml.Document

/-!
# Records in TOML

How records are written as tables: no other keys than the fields of the record, and every field
without a default present. A case can also be written as the array of its fields. Arguments are
brought into canonical form.
-/

namespace Dynval

namespace Schema

variable {α : Type}

/-- The entries of a table that has only known keys. -/
def fields? (known : List String) : Toml → Option (List (String × Toml))
  | .table entries => if entries.all fun e => known.contains e.1 then some entries else none
  | _ => none

def required? (fields : List (String × Toml)) (key : String) (read : Toml → Option α) :
    Option α :=
  (fields.lookup key).bind read

def optional? (fields : List (String × Toml)) (key : String) (read : Toml → Option α) :
    Option (Option α) :=
  match fields.lookup key with
  | none => some none
  | some v => (read v).map some

def text? : Toml → Option String
  | .string s => some s
  | _ => none

def flag? : Toml → Option Bool
  | .boolean b => some b
  | _ => none

def items? (read : Toml → Option α) : Toml → Option (List α)
  | .array items => items.mapM read
  | _ => none

/-- One of some names, as a text or as the only key of a table with an empty value. -/
def named? (ofName? : String → Option α) : Toml → Option α
  | .string s => ofName? s
  | .table [(name, .table [])] => ofName? name
  | .table [(name, .array [])] => ofName? name
  | _ => none

end Schema

open Schema

namespace Case

/-- The fields of a case, in order. -/
def keys : List String := ["name", "op", "args", "expect", "raises", "policy"]

/-- The fields of a case in a table or an array. -/
def fields? : Toml → Option (List (String × Toml))
  | .array items => some (keys.zip items)
  | v => Schema.fields? keys v

def ofToml? (v : Toml) : Option Case := do
  let fields ← fields? v
  return {
    name := ← required? fields "name" text?
    op := ← required? fields "op" (named? Operation.ofName?)
    args := (← optional? fields "args" (items? Toml.canonical?)).getD []
    expect := ← optional? fields "expect" text?
    raises := ← optional? fields "raises" text?
    policy := ← optional? fields "policy" (named? Policy.ofName?) }

end Case

def Suite.ofToml? (v : Toml) : Option Suite := do
  let fields ← Schema.fields? ["name", "description", "case"] v
  return {
    name := ← required? fields "name" text?
    description := ← optional? fields "description" text?
    cases := (← optional? fields "case" (items? Case.ofToml?)).getD [] }

def Config.ofToml? (v : Toml) : Option Config := do
  let fields ←
    fields? ["index_policy", "fail_fast", "filter", "suites", "include_builtin"] v
  let default : Config := {}
  return {
    policy := (← optional? fields "index_policy" (named? Policy.ofName?)).getD default.policy
    failFast := (← optional? fields "fail_fast" flag?).getD default.failFast
    filter := ← optional? fields "filter" text?
    suites := (← optional? fields "suites" (items? text?)).getD default.suites
    includeBuiltin :=
      (← optional? fields "include_builtin" flag?).getD default.includeBuiltin }

/-- Files with TOML documents in them. -/
def Host.toml (files : Files) : Host where
  files := files
  suite? text := (Toml.document? text).bind Suite.ofToml?
  config? text := (Toml.document? text).bind Config.ofToml?

end Dynval
