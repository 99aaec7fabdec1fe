/-
What a caller may ask of a loaded set: which fields, which rows, in what order, how many, and
whether the set has a statement of its own.
-/
import GraphLoad.Request.Order
import GraphLoad.Request.Projection

namespace GraphLoad

open Sql

/-- Whether a set is loaded by its own statement: if its relationship is to-many, always, or never
if it can be helped. -/
inductive ChainPolicy
  | auto
  | root
  | slave
deriving DecidableEq

namespace ChainPolicy

/-- The name of a policy. -/
def name : ChainPolicy → String
  | auto => "auto"
  | root => "root"
  | slave => "slave"

/-- The policy that a text names, in any case and between any blanks. -/
def parse (s : String) : Except LoadError ChainPolicy :=
  let word := Text.lower (Text.trim s)
  if word = "auto" then .ok auto
  else if word = "root" then .ok root
  else if word = "slave" then .ok slave
  else .error (.invalidChainPolicy s)

end ChainPolicy

/-- Everything asked of a set. -/
structure Modifiers where
  projection : Projection := .all
  predicates : List Predicate := []
  order : List OrderTerm := []
  page : Page := {}
  policy : ChainPolicy := .auto

end GraphLoad
