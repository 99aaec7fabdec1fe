import GraphLoad.Text.Case
import GraphLoad.Text.Blank
import GraphLoad.OrderedMap
import GraphLoad.Json.Printer
import GraphLoad.Json.Reader
import GraphLoad.LoadError
import GraphLoad.Sql.Clause
import GraphLoad.Sql.Condition
import GraphLoad.Entity
import GraphLoad.Entity.Catalog
import GraphLoad.Entity.Selection
import GraphLoad.Relation
import GraphLoad.Schema
import GraphLoad.Object.Key
import GraphLoad.Object.Linking
import GraphLoad.Object.Loading
import GraphLoad.Request.Modifiers
import GraphLoad.Command.Tree
import GraphLoad.Plan.Partition
import GraphLoad.Settings
import GraphLoad.Settings.Logging
import GraphLoad.Settings.Reading
import GraphLoad.Plan
import GraphLoad.Plan.Outline
import GraphLoad.Run.Cascade
import GraphLoad.Session
import GraphLoad.Number.Hex
import GraphLoad.Proofs.Plan.Totality
import GraphLoad.Proofs.Run.Hydration
import GraphLoad.Proofs.Relation.Mapping
import GraphLoad.Proofs.Run.Identity
import GraphLoad.Proofs.Relation.Convention
import GraphLoad.Proofs.Schema.Reverse
import GraphLoad.Proofs.Sql.Denotation
import GraphLoad.Proofs.Sql.Hops
import GraphLoad.Proofs.Relation.Joining
import GraphLoad.Proofs.Relation.Conditions
import GraphLoad.Proofs.Schema.Conditions
import GraphLoad.Proofs.Sql.Spans
import GraphLoad.Proofs.Object.Facts
import GraphLoad.Proofs.Plan.Statement
import GraphLoad.Proofs.Plan.Reach
import GraphLoad.Proofs.Run.Keys
import GraphLoad.Proofs.Run.Answers
import GraphLoad.Proofs.Run.Mirror
import GraphLoad.Proofs.Run.Telling
import GraphLoad.Proofs.Run.Cascade
import GraphLoad.Proofs.Command.Policies
import GraphLoad.Proofs.Run.Splitting
import GraphLoad.Proofs.Run.Serving
import GraphLoad.Proofs.Command.Aliases
import GraphLoad.Proofs.Object.Writes
import GraphLoad.Proofs.Object.Links
import GraphLoad.Proofs.Run.Failing
import GraphLoad.Proofs.Run.Filling
import GraphLoad.Proofs.Run.Trace
import GraphLoad.Proofs.Run.Collections
import GraphLoad.Proofs.Plan.Labels
import GraphLoad.Proofs.Run.Supply
import GraphLoad.Proofs.Plan.Placement
import GraphLoad.Proofs.Plan.Windows
import GraphLoad.Proofs.Run.Conflicts
import GraphLoad.Proofs.Command.Names
import GraphLoad.Proofs.Sql.Scope
import GraphLoad.Proofs.Plan.Scope
import GraphLoad.Proofs.Object.Replay
import GraphLoad.Proofs.Object.Retention
import GraphLoad.Proofs.Plan.Condition
import GraphLoad.Proofs.Run.Footprint
import GraphLoad.Proofs.Run.Sending
import GraphLoad.Proofs.Run.Restriction
import GraphLoad.Proofs.Run.Loadedness
import GraphLoad.Proofs.Plan.Tables
import GraphLoad.Proofs.Run.Gathering
import GraphLoad.Proofs.Sql.Inserting
import GraphLoad.Proofs.Run.Alike
import GraphLoad.Proofs.Plan.Leaf
import GraphLoad.Proofs.Run.Leaf
import GraphLoad.Proofs.Run.Adding
import GraphLoad.Proofs.Object.Reloading
import GraphLoad.Proofs.Run.Rehydration
import GraphLoad.Proofs.Schema.Cache
import GraphLoad.Proofs.Plan.Faults
import GraphLoad.Proofs.Session.Calls
import GraphLoad.Proofs.Session.Renaming
import GraphLoad.Proofs.Session.Isolation
import GraphLoad.Proofs.Plan.Outline
import GraphLoad.Proofs.Session.Consistency
import GraphLoad.Proofs.Session.Atomicity
import GraphLoad.Proofs.Sql.Grammar
import GraphLoad.Proofs.Sql.Reading
import GraphLoad.Proofs.Sql.Lexing
import GraphLoad.Proofs.Sql.Spelling
import GraphLoad.Proofs.Sql.Speaking
import GraphLoad.Proofs.Sql.Telling
import GraphLoad.Proofs.Plan.Spelling
import GraphLoad.Proofs.Sql.Connectives
import GraphLoad.Proofs.Plan.Selection
import GraphLoad.Proofs.Object.Apart
import GraphLoad.Proofs.Object.History
import GraphLoad.Proofs.Object.Materialisation
import GraphLoad.Proofs.Command.Candidates
import GraphLoad.Proofs.Request.Projection
import GraphLoad.Proofs.Text.Words
import GraphLoad.Proofs.Number.Interval
import GraphLoad.Proofs.Number.Shortest
import GraphLoad.Proofs.Request.Order
import GraphLoad.Proofs.Json.Numeral
import GraphLoad.Proofs.Json.Printing
import GraphLoad.Proofs.Object.Agreement
import GraphLoad.Proofs.Json.Values
import GraphLoad.Proofs.Schema.Pivots
import GraphLoad.Proofs.Object.Counting
import GraphLoad.Proofs.Schema.Properties
