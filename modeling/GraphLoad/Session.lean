/-
Sessions: a command tree under construction. Every set that is added becomes the active one, and
what is asked for next is asked of it. A set can only be loaded from in the session it belongs to.
-/
import GraphLoad.Run.Cascade

namespace GraphLoad

open Sql

/-- A session with the number of its active command. -/
structure Session where
  settings : Settings
  tree : CommandTree
  active : Nat

namespace Session

/-- Opens a session that loads an entity; `id` is the number no other session has. -/
def create (schema : Schema) (id : Nat) (entity : String) (settings : Settings := {}) :
    Except LoadError Session := do
  let entity ← schema.entity entity
  return { settings, tree := .start id entity, active := 0 }

/-- The handles on all sets, in the order they were added. -/
def sets (s : Session) : List SetRef :=
  s.tree.commands.map fun c => ⟨s.tree.session, c.id, c.aliasName⟩

/-- The command of a handle that belongs to this session. -/
def owned (s : Session) (handle : SetRef) : Except LoadError Command :=
  match s.tree.get? handle.command with
  | some command =>
    if handle.session = s.tree.session ∧ command.aliasName = handle.aliasName then .ok command
    else .error (.foreignSet handle.aliasName)
  | none => .error (.foreignSet handle.aliasName)

/-- Adds the set that a relationship leads to from a set of this session. -/
def load (s : Session) (source : SetRef) (relationship : String) : Resolving Session := do
  let parent ← lift (s.owned source)
  let relation ← Schema.relation parent.entity.name relationship
  let (tree, id) ← lift (s.tree.add source.command relation)
  return { s with tree, active := id }

/-- The handle on the active set. -/
def activeSet? (s : Session) : Option SetRef := s.tree.setRef? s.active

/-! ## Asking of the active set -/

/-- Changes what is asked of the active set. -/
def modify (s : Session) (f : Modifiers → Modifiers) : Session :=
  { s with tree := s.tree.modify s.active f }

/-- Orders by a further field. -/
def orderBy (s : Session) (field : String) (direction : Direction) : Session :=
  s.modify fun m => { m with order := m.order ++ [⟨field, direction⟩] }

/-- Orders as a text says, and not as was said before. -/
def orderByClause (s : Session) (clause : String) : Except LoadError Session := do
  let terms ← OrderTerm.parseList clause
  return s.modify fun m => { m with order := terms }

/-- Loads only some fields and the primary key. -/
def select (s : Session) (fields : List String) : Session :=
  s.modify fun m => { m with projection := .only fields }

/-- Loads all fields but some; the primary key is loaded all the same. -/
def selectExcept (s : Session) (fields : List String) : Session :=
  s.modify fun m => { m with projection := .except fields }

/-- Takes at most `n` rows. -/
def limit (s : Session) (n : Nat) : Session :=
  s.modify fun m => { m with page := m.page.withLimit n }

/-- Skips `n` rows. -/
def offset (s : Session) (n : Nat) : Session :=
  s.modify fun m => { m with page := m.page.withOffset n }

/-- Says whether the set has a statement of its own. -/
def policy (s : Session) (policy : ChainPolicy) : Session :=
  s.modify fun m => { m with policy }

/-- Says so by the name of a policy. -/
def policyNamed (s : Session) (name : String) : Except LoadError Session := do
  let policy ← ChainPolicy.parse name
  return s.policy policy

/-- Loads only rows of which a predicate is true. -/
def restrict (s : Session) (field : String) (operator : Operator) (value : Value) : Session :=
  s.modify fun m => { m with predicates := m.predicates ++ [⟨field, operator, value⟩] }

/-- Loads only rows of which a predicate with a spelled operator is true. -/
def restrictBy (s : Session) (field operator : String) (value : Value) :
    Except LoadError Session := do
  let operator ← Operator.parse operator
  return s.restrict field operator value

/-! ## Planning and running -/

/-- The plan of the session as it stands. -/
def plan (s : Session) : Resolving Plan := Plan.make s.tree s.settings

/-- Plans and runs the session. -/
def execute (s : Session) (executor : Executor) (schema : Schema) : Outcome × Schema :=
  match s.plan schema with
  | .ok plan schema => (plan.execute executor, schema)
  | .error e schema => ({ result := .error e }, schema)

end Session

end GraphLoad
