/-
What a restricted statement selects. A chain that starts from a loaded set is restricted to the keys
of its objects: by membership for a single key column, and by a choice between joint values for
several, in which a null part is tested for null. Main statement: the condition of every statement that
is sent for such a chain is that the predicates of its own sets are met and that the source row has the
key of an object loaded before, part by part, null with null; and the text that is sent has that condition
for its WHERE clause, which, where names are told, is read back with the parameters as one that is true of
just these rows.
-/
import GraphLoad.Proofs.Plan.Condition
import GraphLoad.Proofs.Plan.Spelling
import GraphLoad.Proofs.Run.Keys
import GraphLoad.Proofs.Run.Sending
import GraphLoad.Proofs.Sql.Connectives

namespace GraphLoad

open Sql

/-- Whether a value is the one of a key part, null with null. -/
def Value.Matches (v part : Value) : Prop :=
  (v.isNull = true ∧ part.isNull = true) ∨
    (v.isNull = false ∧ part.isNull = false ∧ v.sameAs part = true)

/-- Whether the key columns of a set have the parts of a key, one by one. -/
def Command.KeyMatches (c : Command) (env : Env) (key : Key) : Prop :=
  List.Forall₂ Value.Matches (c.entity.primaryKey.map (c.cell env)) key.parts

namespace Sql.Condition

variable {db : Database} {env : Env} {column : Expr} {columns : List Expr}

/-- Comparing a column with a part for equality, which is a test for null if the part is. -/
theorem truth_part {part : Value} : db.truth env (.compare .equal column part) = some true ↔
    (column.eval db env).Matches part := by
  unfold Value.Matches
  rw [Database.truth, Database.comparison]
  cases hpart : part.isNull
  case true => simp
  case false => simp [equality_eq_true, hpart]

/-- The condition of one joint key. -/
theorem truth_parts {parts : List Value} (hlength : columns.length = parts.length) :
    db.truth env (.allOf ((columns.zip parts).map fun p => .compare .equal p.1 p.2)) = some true ↔
      List.Forall₂ (fun column part => (column.eval db env).Matches part) columns parts := by
  rw [truth_allOf, Database.truthAll_eq_true, List.forall₂_iff_zip, and_iff_right hlength]
  simp only [List.mem_map, Prod.exists, forall_exists_index, and_imp]
  constructor
  · intro h column part hmem
    exact truth_part.1 (h _ column part hmem rfl)
  · rintro h _ column part hmem rfl
    exact truth_part.2 (h hmem)

/-- The condition of one joint key demands something: there is a first column, and a first part to compare
it with. -/
theorem isAlways_parts {parts : List Value} (hcolumns : columns ≠ [])
    (hlength : columns.length = parts.length) :
    (allOf ((columns.zip parts).map fun p => .compare .equal p.1 p.2)).isAlways = false := by
  cases columns with
  | nil => exact (hcolumns rfl).elim
  | cons column rest =>
    cases parts with
    | nil => cases hlength
    | cons part parts =>
      exact isAlways_allOf ⟨.compare .equal column part, List.mem_cons_self .., rfl⟩

/-- Membership of a single key column. -/
theorem truth_single {keys : List (List Value)}
    (hkeys : ∀ key ∈ keys, ∃ part, key = [part] ∧ part.isNull = false) :
    db.truth env (.isIn column (keys.filterMap List.getLast?)) = some true ↔ ∃ key ∈ keys,
      List.Forall₂ (fun column part => (column.eval db env).Matches part) [column] key := by
  rw [Database.truth, among_eq_true]
  simp only [List.mem_filterMap]
  constructor
  · rintro ⟨v, ⟨key, hkey, hlast⟩, heq⟩
    obtain ⟨part, rfl, hpart⟩ := hkeys key hkey
    rw [List.getLast?_singleton] at hlast
    cases hlast
    obtain ⟨hv, -, hsame⟩ := equality_eq_true.1 heq
    exact ⟨_, hkey, .cons (.inr ⟨hv, hpart, hsame⟩) .nil⟩
  · rintro ⟨key, hkey, hmatch⟩
    obtain ⟨part, rfl, hpart⟩ := hkeys key hkey
    obtain ⟨hmatch, -⟩ := List.forall₂_cons.1 hmatch
    refine ⟨part, ⟨_, hkey, List.getLast?_singleton ..⟩, equality_eq_true.2 ?_⟩
    rcases hmatch with ⟨-, hnull⟩ | hsame
    · rw [hpart] at hnull
      cases hnull
    · exact hsame

/-- A choice between joint keys. -/
theorem truth_joint {keys : List (List Value)} (hcolumns : columns ≠ []) (hne : keys ≠ [])
    (hkeys : ∀ key ∈ keys, columns.length = key.length) :
    db.truth env (.anyOf (keys.map fun key =>
        .allOf ((columns.zip key).map fun p => .compare .equal p.1 p.2))) = some true ↔
      ∃ key ∈ keys,
        List.Forall₂ (fun column part => (column.eval db env).Matches part) columns key := by
  rw [truth_anyOf_eq_true ?demanding (by rw [ne_eq, List.map_eq_nil_iff]; exact hne)]
  case demanding =>
    intro c hc
    obtain ⟨key, hkey, rfl⟩ := List.mem_map.1 hc
    exact isAlways_parts hcolumns (hkeys key hkey)
  simp only [List.mem_map, exists_exists_and_eq_and]
  exact exists_congr fun key => and_congr_right fun hkey => truth_parts (hkeys key hkey)

end Sql.Condition

namespace Run

variable {db : Database} {env : Env} {source : Command} {store : ObjectStore} {objects : List Nat}

/-- The condition on a source set: its row has the key of one of the objects. -/
theorem keyCondition_matches {condition : Condition}
    (h : keyCondition source objects store = .ok condition) (hne : objects ≠ [])
    (hkeyed : ∀ i ∈ objects, store.KeyedFor source.entity i) :
    db.truth env condition = some true ↔
      ∃ i ∈ objects, ∃ a, store.get? i = some a ∧ source.KeyMatches env a.key := by
  obtain ⟨columns, keys, hcolumns, hkeys, hcases⟩ := keyCondition_cases h
  -- every key has a part for every column, and not only null ones
  have hparts : ∀ key ∈ keys, columns.length = key.length ∧ key.all Value.isNull = false := by
    intro key hkey
    obtain ⟨i, hi, a, ha, rfl⟩ := forall₂_mem_right hkeys key hkey
    obtain ⟨b, hb, hlength, hnull⟩ := hkeyed i hi
    rw [ha] at hb
    cases hb
    exact ⟨by rw [hcolumns, List.length_map, hlength], hnull⟩
  have hmatches : (∃ key ∈ keys,
        List.Forall₂ (fun column part => (column.eval db env).Matches part) columns key) ↔
      ∃ i ∈ objects, ∃ a, store.get? i = some a ∧ source.KeyMatches env a.key := by
    have hkey : ∀ key, List.Forall₂ (fun column part => (column.eval db env).Matches part) columns key ↔
        source.KeyMatches env ⟨key⟩ := by
      intro key
      rw [hcolumns, Command.KeyMatches, List.forall₂_map_left_iff, List.forall₂_map_left_iff]
      rfl
    constructor
    · rintro ⟨key, hmem, hmatch⟩
      obtain ⟨i, hi, a, ha, rfl⟩ := forall₂_mem_right hkeys key hmem
      exact ⟨i, hi, a, ha, (hkey _).1 hmatch⟩
    · rintro ⟨i, hi, a, ha, hmatch⟩
      obtain ⟨key, hmem, b, hb, rfl⟩ := forall₂_mem_left hkeys i hi
      rw [ha] at hb
      cases hb
      exact ⟨_, hmem, (hkey _).2 hmatch⟩
  rw [← hmatches]
  rcases hcases with ⟨column, rfl, rfl⟩ | rfl
  · refine Condition.truth_single fun key hkey => ?_
    obtain ⟨hlength, hnull⟩ := hparts key hkey
    obtain ⟨part, rfl⟩ := List.length_eq_one_iff.1 hlength.symm
    exact ⟨part, rfl, by simpa using hnull⟩
  · refine Condition.truth_joint ?_ ?_ fun key hkey => (hparts key hkey).1
    · rw [hcolumns, ne_eq, List.map_eq_nil_iff]
      exact source.entity.primaryKey_ne_nil
    · rintro rfl
      cases hkeys
      exact hne rfl

/-- It demands something. -/
theorem keyCondition_demands {condition : Condition}
    (h : keyCondition source objects store = .ok condition) (hne : objects ≠ [])
    (hkeyed : ∀ i ∈ objects, store.KeyedFor source.entity i) : condition.isAlways = false := by
  obtain ⟨columns, keys, hcolumns, hkeys, ⟨column, -, rfl⟩ | rfl⟩ := keyCondition_cases h
  · rfl
  · obtain ⟨i, hi⟩ := List.exists_mem_of_ne_nil objects hne
    obtain ⟨key, hkey, a, ha, rfl⟩ := forall₂_mem_left hkeys i hi
    obtain ⟨b, hb, hlength, -⟩ := hkeyed i hi
    rw [ha] at hb
    cases hb
    have hfirst : columns ≠ [] := by
      rw [hcolumns, ne_eq, List.map_eq_nil_iff]
      exact source.entity.primaryKey_ne_nil
    have hparts : columns.length = a.key.parts.length := by
      rw [hcolumns, List.length_map, hlength]
    exact Condition.isAlways_anyOf ⟨_, List.mem_map_of_mem hkey, Condition.isAlways_parts hfirst hparts⟩

/-- It is about the key columns of the source. -/
theorem keyCondition_exprs {condition : Condition}
    (h : keyCondition source objects store = .ok condition) :
    ∀ x ∈ condition.exprs, ∃ field ∈ source.entity.primaryKey,
      x = .column source.aliasName ((source.entity.columns.get? field).getD "") := by
  obtain ⟨columns, keys, hcolumns, -, hcases⟩ := keyCondition_cases h
  have hcolumn : ∀ x ∈ columns, ∃ field ∈ source.entity.primaryKey,
      x = .column source.aliasName ((source.entity.columns.get? field).getD "") := by
    intro x hx
    rw [hcolumns] at hx
    obtain ⟨field, hfield, rfl⟩ := List.mem_map.1 hx
    exact ⟨field, hfield, rfl⟩
  intro x hx
  rcases hcases with ⟨column, rfl, rfl⟩ | rfl
  · exact hcolumn x hx
  · rw [Condition.exprs_anyOf] at hx
    obtain ⟨c, hc, hx⟩ := Condition.exists_of_mem_present hx
    obtain ⟨key, -, rfl⟩ := List.mem_map.1 hc
    rw [Condition.exprs_allOf] at hx
    obtain ⟨c, hc, hx⟩ := Condition.exists_of_mem_present hx
    obtain ⟨p, hp, rfl⟩ := List.mem_map.1 hc
    rw [List.mem_singleton.1 hx]
    exact hcolumn _ (List.of_mem_zip hp).1

/-- Whether a joined row is one that a chain is to load: all predicates of the chain's own sets are met,
and the row of its source has, part by part and null with null, the key of an object of the source set. -/
def Wants (run : Run) (t : CommandTree) (chain : Chain) (source : Command) (db : Database) (env : Env) :
    Prop :=
  (∀ c ∈ chain.commands.filterMap t.get?, c.Met db env) ∧
    ∃ k ∈ run.setOf source.id, ∃ object, run.store.get? k = some object ∧
      source.KeyMatches env object.key

end Run

/-! ## Names that are told -/

/-- A column that is told to a dialect is named, under whatever alias is an identifier. -/
theorem Sql.Dialect.Safe.names {d : Dialect} {a n : String} (hn : d.Safe n)
    (ha : OrderTerm.isIdentifier a = true) : (Expr.column a n).Names a n := by
  refine Expr.names_column ha ?_
  unfold Dialect.Safe at hn
  split at hn
  · rename_i hquotes
    exact .inl hquotes
  · exact .inr hn

/-- So are all columns of plain entities. -/
theorem Sql.Expr.Of.names {es : List Entity} {d : Dialect} {x : Expr} (hx : x.Of es)
    (hes : ∀ e ∈ es, e.Plain d) : ∃ a n, x.Names a n := by
  cases x with
  | verbatim text => exact hx.elim
  | column a n =>
    obtain ⟨ha, e, he, hn⟩ := hx
    exact ⟨a, n, ((hes e he).columns n hn).names (ha.identifier fun e he => (hes e he).name)⟩

/-- The condition on the source of a chain is about columns of its entity. -/
theorem Run.keyCondition_of {t : CommandTree} (ht : t.Grown) {chain : Chain} {i : Nat} {source : Command}
    (hi : chain.source = some i) (hsource : t.get? i = some source) {objects : List Nat}
    {store : ObjectStore} {condition : Condition}
    (h : keyCondition source objects store = .ok condition) :
    ∀ x ∈ condition.exprs, x.Of (chain.entities t) := by
  have hentity : source.entity ∈ chain.entities t := by
    refine List.mem_append_left _ (List.mem_map_of_mem (List.mem_filterMap.2 ⟨i, ?_, hsource⟩))
    rw [hi]
    exact List.mem_cons_self ..
  intro x hx
  obtain ⟨field, hfield, rfl⟩ := keyCondition_exprs h x hx
  have hdeclared : (source.entity.columns.get? field).isSome = true :=
    (source.entity.columns.contains_iff_mem_keys field).2 (source.entity.primaryKey_declared field hfield)
  obtain ⟨name, hname⟩ := Option.isSome_iff_exists.1 hdeclared
  rw [hname]
  exact ⟨.of_isAlias hentity (ht.isAlias hsource), source.entity, hentity,
    List.mem_map_of_mem (OrderedMap.get?_eq_some_iff.1 hname)⟩

namespace Plan

variable {t : CommandTree} {cfg : Settings} {s s' : Schema} {plan : Plan}

/-- A statement that is restricted to what was loaded for the source of its chain. -/
structure Restricted (t : CommandTree) (plan : Plan) (run : Run) (chain : Chain) (source : Command)
    (query : Select) (statement : Statement) : Prop where
  /-- Its condition is true of the joined rows that the chain is to load, and of no others. -/
  condition : ∀ (db : Database) (env : Env),
    db.truth env query.condition = some true ↔ run.Wants t chain source db env
  /-- What is sent has the text of the condition for its WHERE clause, -/
  text : statement.text = query.opening plan.settings.dialect ++ " WHERE " ++
    query.condition.text plan.settings.dialect 0 ++ query.ending plan.settings.dialect
  /-- and the parameters of that. -/
  params : statement.params = query.condition.params
  /-- Where it names its columns, the clause is read, with the parameters that are sent, as a phrase that
  is true exactly where the columns hold the values of such a row. -/
  reads : (∀ x ∈ query.condition.exprs, ∃ a n, x.Names a n) → ∃ p,
    readBack plan.settings.dialect 0 (query.condition.text plan.settings.dialect 0) statement.params =
        some p ∧
      ∀ db σ, p.truth db σ = some true ↔ run.Wants t chain source (db.holding σ) σ.env
  /-- It does so if the names of the entities that the chain is about can be told to the dialect. -/
  names : (∀ e ∈ chain.entities t, e.Plain plan.settings.dialect) →
    ∀ x ∈ query.condition.exprs, ∃ a n, x.Names a n

/-- Whether every statement that is sent for a chain with a source is restricted to what was loaded for the
source by then. -/
def SelectsLoaded (t : CommandTree) (plan : Plan) (executor : Executor) : Prop :=
  ∃ asked : List (Chain × Statement), (plan.execute executor).sent = asked.map Prod.snd ∧
    ∀ a ∈ asked, ∃ run query, plan.Reaches executor a.1 run ∧
      Run.queryFor plan a.1 run = .ok (some query) run ∧
      a.2 = query.build plan.settings.dialect ∧
      ∀ i, a.1.source = some i → ∃ source, t.get? i = some source ∧
        Restricted t plan run a.1 source query a.2

/-- A query that demands what a chain is to load is sent as one that is restricted to it. -/
theorem restricted_of_condition {run : Run} {chain : Chain} {source : Command} {query : Select}
    (hcondition : ∀ (db : Database) (env : Env),
      db.truth env query.condition = some true ↔ run.Wants t chain source db env)
    (hdemands : query.condition.isAlways = false) (habout : query.About (chain.entities t)) :
    Restricted t plan run chain source query (query.build plan.settings.dialect) := by
  constructor
  case condition => exact hcondition
  case text => exact (query.build_of_demands plan.settings.dialect hdemands).1
  case params => exact (query.build_of_demands plan.settings.dialect hdemands).2
  case reads =>
    intro hnamed
    obtain ⟨text, p, htext, hread, htruth⟩ := query.where_means plan.settings.dialect hnamed hdemands
    have hsame : query.condition.text plan.settings.dialect 0 = text := by
      rw [Select.conditionText, hdemands, if_neg Bool.false_ne_true] at htext
      exact (String.append_right_inj " WHERE ").1 htext
    exact ⟨p, hsame ▸ hread, fun db σ => by rw [htruth, hcondition]⟩
  case names =>
    intro hplain x hx
    exact (habout.exprs x (Select.mem_exprs.2 (.inr (.inr (.inl hx))))).names hplain

/-- Whatever the executor answers, every statement that is sent for a chain with a source selects
exactly the loaded: its condition is true of joined rows if and only if all predicates of the chain's
own sets are and the key columns of the source have, part by part and null with null, the key of an
object of the source set; and it is this condition that its text and its parameters say. -/
theorem restricted_to_loaded (ht : t.Grown) (hmake : make t cfg s = .ok plan s')
    (executor : Executor) : SelectsLoaded t plan executor := by
  have hmade := made_of_make hmake
  refine ⟨Run.statements executor plan plan.chains (.before plan.tree), execute_sent ht hmade,
    fun a ha => ?_⟩
  obtain ⟨run, query, hreaches, hquery, hstatement⟩ := mem_execute_statements.1 ha
  refine ⟨run, query, hreaches, hquery, hstatement, fun i hi => ?_⟩
  obtain ⟨hchain, -, hkeyed⟩ := hreaches.keeps ht hmade
  obtain ⟨-, ⟨hnone, -⟩ | ⟨j, hj, ⟨-, heq⟩ | ⟨hne, source, condition, hsource, hkeys, heq⟩⟩⟩ :=
    Run.queryFor_ok hquery
  · rw [hi] at hnone
    cases hnone
  · cases heq
  · cases heq
    rw [hi] at hj
    cases hj
    rw [hmade.tree] at hsource
    have hobjects := hkeyed i source hsource
    refine ⟨source, hsource, hstatement ▸ restricted_of_condition (fun db env => ?_) ?_ ?_⟩
    · show db.truth env (a.1.query.condition.and condition) = some true ↔ _
      rw [Condition.truth_and, both_eq_true, hmade.condition hchain,
        Run.keyCondition_matches hkeys hne hobjects, Run.Wants, ht.ordered.ids hsource]
    · show (a.1.query.condition.and condition).isAlways = false
      rw [Condition.isAlways_and, Run.keyCondition_demands hkeys hne hobjects, Bool.and_false]
    · obtain ⟨shape, hshape, hcompile⟩ := forall₂_mem_right hmade.chains a.1 hchain
      obtain ⟨rfl, -⟩ := compile_ok hcompile
      exact (compile_about ht hshape hcompile).restrict (Run.keyCondition_of ht hi hsource hkeys)

/-! ## Guests of rooms with and without a number -/

/-- Rooms, by their house and their number in it. -/
def room : Entity where
  name := "ROOM"
  table := "room"
  columns := .ofList [("house", "house"), ("number", "number")]
  primaryKey := ["house", "number"]
  foreignKeys := .empty
  primaryKey_ne_nil := by decide
  primaryKey_declared := by decide
  foreignKeys_declared := by decide

/-- Guests, and the rooms they have. -/
def guest : Entity where
  name := "GUEST"
  table := "guest"
  columns := .ofList [("id", "id"), ("house", "house"), ("number", "number")]
  primaryKey := ["id"]
  foreignKeys := .empty
  primaryKey_ne_nil := Entity.single_ne_nil "id"
  primaryKey_declared := by decide
  foreignKeys_declared := by decide

/-- The guests of a room. -/
def guests : Relation where
  source := room
  name := "GUESTS"
  target := guest
  kind := .oneToMany
  property := "guests"
  reverseName := "ROOM1"
  reverseDeclared := false
  pivot := none
  mapping := (JoinMapping.bind {} "GUEST" "ROOM" "house" "house").bind "GUEST" "ROOM" "number" "number"

/-- Rooms, and in a statement of their own the guests after the third. -/
def inn : CommandTree :=
  ((CommandTree.start 1 room).push guest (some ⟨0, guests⟩)).modify 1 fun m =>
    { m with predicates := [⟨"id", .compare .greater, .int 3⟩] }

/-- A house that is one room, and room 5 of another. -/
def twoRooms : Executor := fun sent =>
  .ok (if sent.length = 1 then
      [.ofList [("ROOM1:house", .int 1), ("ROOM1:number", .null)],
        .ofList [("ROOM1:house", .int 2), ("ROOM1:number", .int 5)]]
    else [])

/-- The statements for the rooms and for their guests. -/
def innTexts : List String := [
  "SELECT ROOM1.house AS \x22ROOM1:house\x22, ROOM1.number AS \x22ROOM1:number\x22" ++
    " FROM room AS ROOM1",
  "SELECT ROOM1.house AS \x22ROOM1:house\x22, ROOM1.number AS \x22ROOM1:number\x22," ++
    " GUEST2.id AS \x22GUEST2:id\x22, GUEST2.house AS \x22GUEST2:house\x22," ++
    " GUEST2.number AS \x22GUEST2:number\x22" ++
    " FROM room AS ROOM1 INNER JOIN guest AS GUEST2" ++
    " ON GUEST2.house = ROOM1.house AND GUEST2.number = ROOM1.number" ++
    " WHERE (GUEST2.id > $1 AND ((ROOM1.house = $2 AND ROOM1.number IS NULL)" ++
    " OR (ROOM1.house = $3 AND ROOM1.number = $4)))"]

/-- The statement for the guests binds the number 3, both houses and one room number: the missing one
is tested for. Its names are told. -/
theorem restricted_to_loaded_inn : inn.Grown ∧ ∃ plan s',
    make inn {} { catalog := .ofList [room, guest] } = .ok plan s' ∧
      (plan.execute twoRooms).sent.map (fun statement => statement.text) = innTexts ∧
      (plan.execute twoRooms).sent.map (fun statement => statement.params.length) = [0, 4] ∧
      (∀ chain ∈ plan.chains, ∀ e ∈ chain.entities inn, e.Plain plan.settings.dialect) ∧
      SelectsLoaded inn plan twoRooms := by
  have hgrown : inn.Grown := .modify 1 _ (grown_push (.start 1 room) 0 guests rfl)
  have hmade : ((made? inn {} { catalog := .ofList [room, guest] }).any fun plan => decide
      ((plan.execute twoRooms).sent.map (fun statement => statement.text) = innTexts ∧
        (plan.execute twoRooms).sent.map (fun statement => statement.params.length) = [0, 4] ∧
        ∀ chain ∈ plan.chains, ∀ e ∈ chain.entities inn, e.Plain plan.settings.dialect)) = true := by
    decide +kernel
  obtain ⟨plan, hsome, hfacts⟩ := (Option.any_eq_true _ _).1 hmade
  obtain ⟨htexts, hparams, hplain⟩ := of_decide_eq_true hfacts
  obtain ⟨s', hmake⟩ := made?_some hsome
  exact ⟨hgrown, plan, s', hmake, htexts, hparams, hplain, restricted_to_loaded hgrown hmake twoRooms⟩

end Plan

end GraphLoad
