/-
The outline of a plan: every chain under the one it starts from, indented by its depth, with its
sets and its statement.
-/
import GraphLoad.Plan

namespace GraphLoad.Plan

open Sql

/-- The roots of a chain that are numbered after its own root. -/
def laterRoots (p : Plan) (chain : Chain) : List Nat :=
  chain.roots.filter fun c => chain.root < c ∧ c < p.tree.size

/-- A chain and those below it, each with its depth, in the order they are shown. -/
def outline (p : Plan) (depth : Nat) (chain : Chain) : List (Nat × Chain) :=
  (depth, chain) :: (p.laterRoots chain).attach.flatMap fun ⟨c, _⟩ =>
    match _ : p.chainRootedAt? c with
    | none => []
    | some sub => p.outline (depth + 1) sub
termination_by p.tree.size - chain.root
decreasing_by
  have hroot : sub.root = c := by simpa using List.find?_some ‹p.chainRootedAt? c = some sub›
  have hlater := (List.mem_filter.1 ‹c ∈ p.laterRoots chain›).2
  simp only [decide_eq_true_eq] at hlater
  omega

/-- The alias of a command. -/
def aliasOf (p : Plan) (id : Nat) : String := ((p.tree.get? id).map Command.aliasName).getD ""

/-- The name of a command's entity. -/
def entityOf (p : Plan) (id : Nat) : String :=
  ((p.tree.get? id).map fun c => c.entity.name).getD ""

/-- The line that opens a chain. -/
def headLine (p : Plan) (chain : Chain) : String :=
  "chain " ++ p.aliasOf chain.root ++
    match chain.source with
    | none => " (" ++ p.entityOf chain.root ++ ")"
    | some source => " (keys of " ++ p.aliasOf source ++ ")"

/-- The line of a set. -/
def commandLine (p : Plan) (command : Command) : String :=
  match command.origin with
  | none => command.aliasName ++ " [" ++ command.entity.name ++ "]"
  | some origin =>
    command.aliasName ++ " <- " ++ p.aliasOf origin.parent ++ "." ++ origin.relation.name ++ " [" ++
      origin.relation.cardinality.text ++ ", " ++ command.modifiers.policy.name ++ "]"

/-- The lines of a chain at a depth. -/
def chainText (p : Plan) (depth : Nat) (chain : Chain) : String :=
  let pad := String.join (List.replicate depth "  ")
  let commands := chain.commands.filterMap p.tree.get?
  pad ++ p.headLine chain ++ "\n" ++
    String.join (commands.map fun c => pad ++ "  " ++ p.commandLine c ++ "\n") ++
    pad ++ "  sql: " ++ (chain.query.build p.settings.dialect).text ++ "\n"

/-- The outline of a plan as text. -/
def explain (p : Plan) : String :=
  match p.chains with
  | [] => ""
  | first :: _ =>
    String.join ((p.outline 0 first).map fun (depth, chain) => p.chainText depth chain)

end GraphLoad.Plan
