/-
Settings of the engine: the dialect of its statements, how sets that share a statement are joined,
and what happens when a property for one object is given two. They are read through a look-up of
variables.
-/
import GraphLoad.Object.Linking

namespace GraphLoad

open Sql

/-- The settings that all sessions on a schema share. -/
structure Settings where
  dialect : Dialect := .postgres
  join : JoinKind := .left
  conflicts : ConflictPolicy := .warn
deriving DecidableEq

namespace Settings

/-- A setting read from a variable, or its default where the variable is not set. -/
def setting {α : Type} (lookup : String → Option String) (variable_ : String)
    (parse : String → Except LoadError α) (default : α) : Except LoadError α :=
  match lookup variable_ with
  | none => .ok default
  | some text => (parse text).mapError fun _ => .invalidConfiguration variable_ text

/-- The settings of a look-up of variables; a value that names nothing is an error. -/
def ofLookup (lookup : String → Option String) : Except LoadError Settings := do
  let dialect ← setting lookup "WEFT_DATABASE" Dialect.parse .postgres
  let join ← setting lookup "WEFT_JOIN_TYPE" JoinKind.parse .left
  let conflicts ← setting lookup "WEFT_LINK_CONFLICTS" ConflictPolicy.parse .warn
  return { dialect, join, conflicts }

end Settings

end GraphLoad
