/-
Plans: a command tree cut into chains, one statement for each. Making a plan settles the fields of
every set and the way back of every relationship, and compiles the statements; nothing is sent yet.
-/
import GraphLoad.Plan.Partition
import GraphLoad.Schema
import GraphLoad.Settings

namespace GraphLoad

open Sql

/-- A chain with its statement, which is not yet restricted to the keys of its source. -/
structure Chain extends ChainShape where
  query : Select

/-- A plan. Fields and ways back are listed by the numbers of their commands. -/
structure Plan where
  tree : CommandTree
  settings : Settings
  chains : List Chain
  projections : List (List String)
  reverses : List (Option Relation)

namespace Plan

/-! ## Compiling a chain -/

/-- The command that a set is loaded from, and the relationship followed. -/
def sourceOf (tree : CommandTree) (command : Command) : Except LoadError (Command × Relation) :=
  match command.origin with
  | none => .error (.internal (command.aliasName ++ " has no source set"))
  | some origin =>
    match tree.get? origin.parent with
    | none => .error (.internal (command.aliasName ++ " has no source set"))
    | some parent => .ok (parent, origin.relation)

/-- Starts the statement of a chain: from the table of its root, or from the table of its source,
with the key that rows are matched by, joined with that of its root. -/
def startChain (tree : CommandTree) (root : Command) : Building Unit := do
  match root.origin with
  | none => set (Select.ofTable (.named root.entity.table) root.aliasName)
  | some _ =>
    let (source, relation) ← lift (sourceOf tree root)
    set (Select.ofTable (.named source.entity.table) source.aliasName)
    source.entity.selectFields source.aliasName source.entity.primaryKey
    relation.join source.aliasName root.aliasName .inner

/-- Restricts a statement by one predicate on a set. -/
def addPredicate (command : Command) (p : Predicate) : Building Unit := do
  let column ← lift (command.entity.fieldExpr command.aliasName p.field)
  modify (·.restrict (p.on column))

/-- Writes one set of a chain into its statement: its table, unless it is the root, its columns and
its predicates. -/
def addCommand (tree : CommandTree) (root : Nat) (projections : List (List String))
    (join : JoinKind) (command : Command) : Building Unit := do
  if command.id ≠ root then
    let (parent, relation) ← lift (sourceOf tree command)
    relation.join parent.aliasName command.aliasName join
  command.entity.selectFields command.aliasName (projections[command.id]?.getD [])
  command.modifiers.predicates.forM (addPredicate command)

/-- Orders a statement as one of its sets asks. -/
def addOrder (command : Command) : Building Unit :=
  command.modifiers.order.forM fun term =>
    command.entity.orderByField command.aliasName term.field term.direction

/-- Writes the statement of a chain. Only the window of its root applies. -/
def writeChain (tree : CommandTree) (projections : List (List String)) (join : JoinKind)
    (root : Command) (commands : List Command) : Building Unit := do
  startChain tree root
  commands.forM (addCommand tree root.id projections join)
  commands.forM addOrder
  modify (·.paginate root.modifiers.page)

/-- Compiles a chain. -/
def compile (tree : CommandTree) (projections : List (List String)) (join : JoinKind)
    (shape : ChainShape) : Except LoadError Chain :=
  match tree.get? shape.root with
  | none => .error (.internal ("no command " ++ toString shape.root))
  | some root =>
    match writeChain tree projections join root (shape.commands.filterMap tree.get?) {} with
    | .ok _ query => .ok { shape with query }
    | .error e _ => .error e

/-! ## Making a plan -/

/-- The way back of a relationship, if it resolves. A name that is only derived may fail to; one
that was declared may only be unknown. -/
def resolveReverse (relation : Relation) : Resolving (Option Relation) := fun schema =>
  match Schema.reverse relation schema with
  | .ok reverse schema => .ok (some reverse) schema
  | .error e schema =>
    if e.code = .unknownRelationship ∨ relation.reverseDeclared = false then .ok none schema
    else .error e schema

/-- The fields of a set and the way back of its relationship. -/
def resolveCommand (command : Command) : Resolving (List String × Option Relation) := do
  let fields ← lift (command.modifiers.projection.resolve command.entity)
  match command.origin with
  | none => return (fields, none)
  | some origin => return (fields, ← resolveReverse origin.relation)

/-- Makes the plan of a tree. -/
def make (tree : CommandTree) (settings : Settings) : Resolving Plan := do
  let resolved ← tree.commands.mapM resolveCommand
  let projections := resolved.map (·.1)
  let chains ← lift ((tree.chainsFrom 0).mapM (compile tree projections settings.join))
  return { tree, settings, chains, projections, reverses := resolved.map (·.2) }

/-! ## Reading a plan -/

/-- The way back of a command's relationship. -/
def reverse? (p : Plan) (id : Nat) : Option Relation := (p.reverses[id]?).join

/-- The chain that a command belongs to. -/
def chainOf? (p : Plan) (id : Nat) : Option Chain :=
  p.chains.find? fun c => c.commands.contains id

/-- The chain that starts at a command. -/
def chainRootedAt? (p : Plan) (id : Nat) : Option Chain := p.chains.find? fun c => c.root == id

end Plan

end GraphLoad
