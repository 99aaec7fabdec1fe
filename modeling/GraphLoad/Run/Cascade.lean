/-
Running a plan: its chains one after the other, each restricted to the keys that its source set was
found to have. A chain whose source set is empty sends nothing. The first error ends the run.
-/
import GraphLoad.Run.Hydration

namespace GraphLoad

open Sql

/-- What answers statements: given the statements sent so far, the newest last, the rows of the
newest one or an error. -/
abbrev Executor := List Statement → Except LoadError (List Row)

/-- The objects of a set in the order of its rows. -/
structure ResultSet where
  aliasName : String
  entity : String
  objects : List Nat
deriving DecidableEq

/-- What a session has loaded. -/
structure Output where
  session : Nat
  store : ObjectStore
  sets : List ResultSet

/-- How a run ended, with the statements it sent and the warnings it gave. -/
structure Outcome where
  result : Except LoadError Output
  sent : List Statement := []
  warnings : List LinkWarning := []

namespace Output

/-- The set of a handle from the same session. -/
def set? (o : Output) (handle : SetRef) : Option ResultSet :=
  if handle.session = o.session then
    (o.sets[handle.command]?).filter (·.aliasName == handle.aliasName)
  else none

/-- The objects of a set, in set order. -/
def records (o : Output) (handle : SetRef) : List Record :=
  match o.set? handle with
  | none => []
  | some set => set.objects.filterMap o.store.get?

end Output

namespace Run

/-- The key parts of an object, which has to be in the store. -/
def keyPartsOf (store : ObjectStore) : List Nat → Except LoadError (List (List Value))
  | [] => .ok []
  | id :: rest => do
    match store.get? id with
    | none => .error (.internal ("object #" ++ toString id ++ " missing from store"))
    | some record =>
      let others ← keyPartsOf store rest
      return record.key.parts :: others

/-- The columns of a list of fields. -/
def keyColumns (source : Command) : List String → Except LoadError (List Expr)
  | [] => .ok []
  | field :: rest => do
    let column ← source.entity.fieldExpr source.aliasName field
    let others ← keyColumns source rest
    return column :: others

/-- The condition that a row belongs to one of the objects: membership of a single key column, or
for several columns a choice between their joint values. -/
def keyCondition (source : Command) (objects : List Nat) (store : ObjectStore) :
    Except LoadError Condition := do
  let columns ← keyColumns source source.entity.primaryKey
  let keys ← keyPartsOf store objects
  match columns with
  | [column] => return .isIn column (keys.filterMap List.getLast?)
  | columns =>
    return .anyOf (keys.map fun key =>
      .allOf ((columns.zip key).map fun (column, value) => .compare .equal column value))

/-- The command of a number, which has to be in the tree. -/
def commandOf (plan : Plan) (id : Nat) : Except LoadError Command :=
  match plan.tree.get? id with
  | some command => .ok command
  | none => .error (.internal ("no command " ++ toString id))

/-- The query that a chain sends now, if it sends one. -/
def queryFor (plan : Plan) (chain : Chain) : Running (Option Select) := do
  match chain.source with
  | none => return some chain.query
  | some id =>
    let run ← get
    let objects := run.setOf id
    if objects.isEmpty then return none
    let source ← lift (commandOf plan id)
    let condition ← lift (keyCondition source objects run.store)
    return some (chain.query.restrict condition)

/-- Sends a statement. An error that names no statement is given this one. -/
def send (executor : Executor) (statement : Statement) : Running (List Row) := do
  modify fun run => { run with sent := run.sent ++ [statement] }
  let run ← get
  lift ((executor run.sent).mapError (·.withMissingSql statement.text))

/-- Runs one chain. -/
def runChain (executor : Executor) (plan : Plan) (chain : Chain) : Running Unit := do
  match ← queryFor plan chain with
  | none => return
  | some query =>
    let rows ← send executor (query.build plan.settings.dialect)
    hydrate plan chain rows

/-- The sets of a tree with the objects that were found for them. -/
def resultSets (tree : CommandTree) (sets : List (List Nat)) : List ResultSet :=
  (tree.commands.zip sets).map fun (c, objects) => ⟨c.aliasName, c.entity.name, objects⟩

/-- The run before its first chain. -/
def before (tree : CommandTree) : Run := { sets := List.replicate tree.size [] }

end Run

/-- Runs every chain of a plan. -/
def Plan.execute (plan : Plan) (executor : Executor) : Outcome :=
  match plan.chains.forM (Run.runChain executor plan) (Run.before plan.tree) with
  | .ok _ run =>
    { result := .ok ⟨plan.tree.session, run.store, Run.resultSets plan.tree run.sets⟩
      sent := run.sent
      warnings := run.warnings }
  | .error e run => { result := .error e, sent := run.sent, warnings := run.warnings }

end GraphLoad
