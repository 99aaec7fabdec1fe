/-
Hydration: turning the rows of one statement into linked objects. The objects of every set of the
chain are loaded first, so that linking finds both ends of every relationship; the objects of the
source are found again by their keys.
-/
import GraphLoad.Object.Loading
import GraphLoad.Plan

namespace GraphLoad

open Sql

/-- A load while it runs: the objects, the set of each command by its number, the statements sent
and the warnings given. -/
structure Run where
  store : ObjectStore := {}
  sets : List (List Nat) := []
  sent : List Statement := []
  warnings : List LinkWarning := []

/-- Steps of a running load that may fail. -/
abbrev Running := EStateM LoadError Run

namespace Run

/-- The set of a command. -/
def setOf (run : Run) (id : Nat) : List Nat := run.sets[id]?.getD []

/-- Loads the objects of an alias; gives the rows that hold them, and the objects. -/
def loadAlias (entity : Entity) (aliasName : String) (rows : List Row) :
    Running (List Row × List Nat) := fun run =>
  let loaded := entity.objectLoad aliasName rows run.store
  let run := { run with store := loaded.store }
  match loaded.objects with
  | .ok objects => .ok (loaded.rows, objects) run
  | .error e => .error e run

/-- Loads the objects of the source of a chain; gives the rows that hold them. -/
def loadSource (plan : Plan) (chain : Chain) (rows : List Row) : Running (List Row) :=
  match chain.source.bind plan.tree.get? with
  | none => return rows
  | some source => return (← loadAlias source.entity source.aliasName rows).1

/-- Loads the set of a command; gives the rows that hold its objects. -/
def loadSet (rows : List Row) (command : Command) : Running (List Row) := do
  let (rows, objects) ← loadAlias command.entity command.aliasName rows
  modify fun run => { run with sets := run.sets.set command.id objects }
  return rows

/-- Linking as a step of a load. -/
def linking (step : Linking Unit) : Running Unit := fun run =>
  match step { store := run.store } with
  | .ok _ l => .ok () { run with store := l.store, warnings := run.warnings ++ l.warnings }
  | .error e l => .error e { run with store := l.store, warnings := run.warnings ++ l.warnings }

/-- Links the set of a command with that of its parent. -/
def linkSet (plan : Plan) (rows : List Row) (command : Command) : Running Unit :=
  match command.origin with
  | none => return
  | some origin =>
    match plan.tree.get? origin.parent with
    | none => return
    | some parent =>
      linking (origin.relation.link parent.aliasName command.aliasName (plan.reverse? command.id)
        plan.settings.conflicts rows)

/-- Gives every object of the source a collection, also where no row mentions it. -/
def initSource (plan : Plan) (chain : Chain) : Running Unit :=
  match chain.source, (plan.tree.get? chain.root).bind Command.relation with
  | some source, some relation =>
    if relation.isMany then
      modify fun run =>
        { run with
          store := (run.setOf source).foldl (·.initMany · relation.property) run.store }
    else return
  | _, _ => return

/-- Hydrates the rows of a chain. -/
def hydrate (plan : Plan) (chain : Chain) (rows : List Row) : Running Unit := do
  let commands := chain.commands.filterMap plan.tree.get?
  let rows ← loadSource plan chain rows
  let rows ← commands.foldlM loadSet rows
  commands.forM (linkSet plan rows)
  initSource plan chain

end Run

end GraphLoad
