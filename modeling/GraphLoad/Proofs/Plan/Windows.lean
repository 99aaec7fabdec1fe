/-
Windows and joins. Whether a set is fused into a statement that takes a window of its rows is decided
from the root of the chain and the cardinality of the set alone, at whatever depth it stands. Main
statement: such a statement joins its further sets one row to one row, so that the rows it windows are
those it starts with, none lost and none repeated.
-/
import GraphLoad.Proofs.Plan.Labels
import GraphLoad.Proofs.Plan.Totality
import Mathlib.Data.List.Induction

namespace GraphLoad

open Sql

/-! ## Joins that match one row -/

namespace Sql

/-- What an environment says of some aliases. -/
def Env.only (aliases : List String) (env : Env) : Env := fun b => if b ∈ aliases then env b else none

theorem Env.only_eq {aliases : List String} {env env' : Env} (h : ∀ b ∈ aliases, env' b = env b) :
    env'.only aliases = env.only aliases := by
  funext b
  unfold only
  split
  · exact h b ‹_›
  · rfl

namespace Database

variable {db : Database} {q : Select} {js : List Join} {j : Join} {env : Env} {aliases : List String}

/-- The rows that a join matches with the row on its left. -/
def matching (db : Database) (j : Join) (env : Env) : List Tuple :=
  (db.tuples j.table).filter fun u => db.joined (env.bind j.aliasName (some u)) j.on

/-- Whether each join of a statement that is one of `js` matches at most one row for every row on its
left. -/
def MatchesOnce (db : Database) (js : List Join) (q : Select) : Prop :=
  ∀ n, (h : n < q.joins.length) → q.joins[n] ∈ js →
    ∀ env ∈ db.envs { q with joins := q.joins.take n }, (db.matching q.joins[n] env).length ≤ 1

instance (db : Database) (js : List Join) (q : Select) : Decidable (db.MatchesOnce js q) :=
  inferInstanceAs (Decidable (∀ n, (h : n < q.joins.length) → _))

theorem MatchesOnce.split (h : db.MatchesOnce js q) {pre post : List Join}
    (hjoins : q.joins = pre ++ j :: post) (hj : j ∈ js) :
    ∀ env ∈ db.envs { q with joins := pre }, (db.matching j env).length ≤ 1 := by
  have hlt : pre.length < q.joins.length := by
    rw [hjoins]
    simp
  have hget : q.joins[pre.length] = j := by simp [hjoins]
  have htake : q.joins.take pre.length = pre := by simp [hjoins]
  have hmatches := h pre.length hlt
  rw [hget, htake] at hmatches
  exact hmatches hj

/-- A left join that matches at most one row makes one row of each. -/
theorem join_only (hleft : j.kind = .left) (hone : (db.matching j env).length ≤ 1)
    (hnew : j.aliasName ∉ aliases) :
    (db.join j env).map (Env.only aliases) = [env.only aliases] := by
  have hbind : ∀ o, (env.bind j.aliasName o).only aliases = env.only aliases := by
    intro o
    refine Env.only_eq fun b hb => Env.bind_of_ne env ?_ o
    rintro rfl
    exact hnew hb
  cases hmatching : db.matching j env with
  | nil =>
    have hjoin : db.join j env = [env.bind j.aliasName none] := by
      unfold matching at hmatching
      unfold join
      rw [hleft, hmatching]
    rw [hjoin, List.map_singleton, hbind]
  | cons u us =>
    rw [hmatching, List.length_cons] at hone
    have hus : us = [] := List.eq_nil_of_length_eq_zero (by omega)
    subst hus
    have hjoin : db.join j env = [env.bind j.aliasName (some u)] := by
      unfold matching at hmatching
      unfold join
      rw [hleft, hmatching]
      rfl
    rw [hjoin, List.map_singleton, hbind]

/-- The environments of a statement say nothing of aliases it does not have. -/
theorem envs_only (db : Database) (q : Select) :
    (db.envs q).map (Env.only q.aliases) = db.envs q := by
  suffices hsame : ∀ env ∈ db.envs q, env.only q.aliases = id env by
    rw [List.map_congr_left hsame, List.map_id]
  intro env henv
  funext b
  unfold Env.only
  split
  · rfl
  · rename_i hb
    unfold envs at henv
    split at henv
    · cases henv
    · rename_i table a hsource
      obtain ⟨u, -, henv⟩ := List.mem_flatMap.1 henv
      rw [Select.aliases, hsource, List.mem_append, not_or] at hb
      have hne : b ≠ a := fun heq => hb.1 (by rw [heq]; exact List.mem_singleton_self a)
      show none = env b
      rw [joinAll_of_not_mem henv hb.2, Env.bind_of_ne _ hne]
      rfl

/-- Left joins that each match at most one row keep the rows of a statement one for one. -/
theorem envs_addJoins_only (hnodup : (q.addJoins js).aliases.Nodup)
    (hleft : ∀ j ∈ js, j.kind = .left)
    (hone : ∀ pre j post, js = pre ++ j :: post → ∀ env ∈ db.envs (q.addJoins pre),
      (db.matching j env).length ≤ 1) :
    (db.envs (q.addJoins js)).map (Env.only q.aliases) = db.envs q := by
  induction js using List.reverseRecOn with
  | nil =>
    rw [envs_addJoins]
    simp only [joinAll, List.flatMap_singleton', envs_only]
  | append_singleton js j ih =>
    have hadd : q.addJoins (js ++ [j]) = (q.addJoins js).addJoins [j] := by
      simp only [Select.addJoins, List.append_assoc]
    rw [hadd, Select.aliases_addJoins] at hnodup
    obtain ⟨hbefore, -, hapart⟩ := List.nodup_append.1 hnodup
    have hnew : j.aliasName ∉ q.aliases := by
      intro hmem
      refine hapart j.aliasName ?_ j.aliasName (List.mem_singleton_self _) rfl
      rw [Select.aliases_addJoins]
      exact List.mem_append_left _ hmem
    have hrest := ih hbefore (fun k hk => hleft k (List.mem_append_left _ hk))
      fun pre k post hsplit => hone pre k (post ++ [j]) (by rw [hsplit, List.append_assoc]; rfl)
    -- the last join makes one row of each, which says the same of the aliases of `q`
    have hlast : ∀ env ∈ db.envs (q.addJoins js),
        (db.joinAll [j] env).map (Env.only q.aliases) = [env.only q.aliases] := by
      intro env henv
      rw [joinAll, show db.joinAll [] = fun env => [env] from rfl, List.flatMap_singleton']
      exact join_only (hleft j (List.mem_append_right _ (List.mem_singleton_self j)))
        (hone js j [] rfl env henv) hnew
    rw [hadd, envs_addJoins, List.map_flatMap, List.flatMap_congr hlast, ← hrest]
    exact (List.map_eq_flatMap ..).symm

end Database

end Sql

/-! ## Fused sets -/

namespace CommandTree

variable {t : CommandTree}

/-- What is fused into a chain does not start one of its own. -/
theorem startsChain_of_fused (t : CommandTree) {root : Command} {id i : Nat}
    (h : i ∈ (t.below root id).fused) {c : Command} (hc : t.get? i = some c) :
    startsChain root c = false := by
  induction id using later_induction t with
  | step id ih =>
    rw [fused_below, List.mem_flatMap] at h
    obtain ⟨child, hchild, h⟩ := h
    obtain ⟨hlt, hsize⟩ := mem_childrenOf hchild
    unfold branch at h
    split at h
    · cases h
    · rename_i command hcommand
      split at h
      · cases h
      · rename_i hstarts
        -- what is found below a fused child was compared with the same root
        rcases List.mem_cons.1 h with rfl | h
        · rw [hcommand] at hc
          cases hc
          exact Bool.eq_false_iff.2 hstarts
        · exact ih child hlt hsize h

/-- Below a window only one object is fused for each. -/
theorem cardinality_of_fused {root : Command} (hwindow : root.isPaginated = true) {id i : Nat}
    (h : i ∈ (t.below root id).fused) {c : Command} (hc : t.get? i = some c) :
    c.cardinality = .one := by
  have hstarts := t.startsChain_of_fused h hc
  cases hmany : c.cardinality with
  | one => rfl
  | many =>
    unfold startsChain at hstarts
    rw [hmany, hwindow] at hstarts
    split at hstarts <;> cases hstarts

/-- The joins of the relationship that a set is loaded along, as joins of some kind. -/
def joinsOf (t : CommandTree) (kind : JoinKind) (c : Command) : List Join :=
  match c.origin with
  | none => []
  | some o =>
    match t.get? o.parent with
    | none => []
    | some p =>
      ((o.relation.clauses p.aliasName c.aliasName).toOption.getD []).map (·.as kind)

theorem joinsOf_eq {kind : JoinKind} {c p : Command} {o : Origin} {js : List Join}
    (ho : c.origin = some o) (hp : t.get? o.parent = some p)
    (hjs : o.relation.clauses p.aliasName c.aliasName = .ok js) :
    t.joinsOf kind c = js.map (·.as kind) := by
  unfold joinsOf
  rw [ho]
  dsimp only
  rw [hp]
  dsimp only
  rw [hjs]
  rfl

theorem kind_joinsOf {kind : JoinKind} {c : Command} {j : Join} (h : j ∈ t.joinsOf kind c) :
    j.kind = kind := by
  unfold joinsOf at h
  split at h
  · cases h
  · split at h
    · cases h
    · obtain ⟨k, -, rfl⟩ := List.mem_map.1 h
      rfl

end CommandTree

/-! ## The statement of a chain -/

namespace Plan

variable {t : CommandTree} {root : Command} {projections : List (List String)} {kind : JoinKind}
  {q q' : Select}

/-- The joins along relationships to one object in the statement of a chain. -/
def singleJoins (plan : Plan) (chain : Chain) : List Join :=
  ((chain.commands.filterMap plan.tree.get?).filter fun c => c.cardinality = .one).flatMap
    (plan.tree.joinsOf plan.settings.join)

/-- The joins that a set adds to the statement of a chain: those of its relationship, unless it is the
root, with which the statement has started. -/
def addedJoins (t : CommandTree) (kind : JoinKind) (root : Nat) (c : Command) : List Join :=
  if c.id = root then [] else t.joinsOf kind c

theorem mem_addedJoins {root : Nat} {c : Command} {j : Join} (h : j ∈ addedJoins t kind root c) :
    c.id ≠ root ∧ j ∈ t.joinsOf kind c := by
  unfold addedJoins at h
  split at h
  · cases h
  · exact ⟨‹_›, h⟩

theorem addCommand_joins {c : Command}
    (h : addCommand t root.id projections kind c q = .ok ⟨⟩ q') :
    q'.source = q.source ∧ q'.joins = q.joins ++ addedJoins t kind root.id c := by
  obtain ⟨q₁, q₂, hjoin, hsame, -, hpredicates⟩ := addCommand_ok h
  obtain ⟨hsource, hjoins, -⟩ := addPredicates_keeps hpredicates
  rw [hsource, hjoins, hsame.source, hsame.joins]
  unfold addedJoins
  rcases hjoin with ⟨hid, rfl⟩ | ⟨hid, o, p, ho, hp, hjoin⟩
  · rw [if_pos hid, List.append_nil]
    exact ⟨rfl, rfl⟩
  · obtain ⟨js, hjs, rfl⟩ := Relation.join_ok hjoin
    rw [if_neg hid, CommandTree.joinsOf_eq ho hp hjs]
    exact ⟨rfl, rfl⟩

/-- After its start, the statement of a chain joins its further sets and nothing else. -/
theorem writeChain_joins {commands : List Command}
    (h : writeChain t projections kind root commands {} = .ok ⟨⟩ q) :
    ∃ start js, startChain t root {} = .ok ⟨⟩ start ∧ js = commands.flatMap (addedJoins t kind root.id) ∧
      q.source = (start.addJoins js).source ∧ q.joins = (start.addJoins js).joins := by
  unfold writeChain at h
  obtain ⟨⟨⟩, start, hbegin, h⟩ := step_bind_ok h
  obtain ⟨⟨⟩, q₁, hcommands, h⟩ := step_bind_ok h
  obtain ⟨⟨⟩, q₂, horders, hpage⟩ := step_bind_ok h
  have hadded : q₁.source = start.source ∧
      q₁.joins = start.joins ++ commands.flatMap (addedJoins t kind root.id) := by
    refine forM_builds (P := fun pre q₁ => q₁.source = start.source ∧
      q₁.joins = start.joins ++ pre.flatMap (addedJoins t kind root.id)) ?_
      ⟨rfl, (List.append_nil _).symm⟩ hcommands
    rintro pre c post - q₁ q₂ ⟨hsource, hjoins⟩ hstep
    obtain ⟨hsource', hjoins'⟩ := addCommand_joins hstep
    refine ⟨hsource'.trans hsource, ?_⟩
    rw [hjoins', hjoins, List.flatMap_append, List.flatMap_singleton, List.append_assoc]
  have hsame := (addOrders_ok horders).1
  rw [← step_modify_ok hpage]
  exact ⟨start, _, hbegin, rfl, hsame.source.trans hadded.1, hsame.joins.trans hadded.2⟩

/-- A set of a chain that is not its root is fused below it. -/
theorem mem_fused_of_ne {i : Nat} {c : Command} (hroot : t.get? i = some root)
    (hc : c ∈ (t.chainAt i).commands.filterMap t.get?) (hne : c.id ≠ root.id) :
    ∃ k ∈ (t.below root i).fused, t.get? k = some c := by
  obtain ⟨k, hk, hget⟩ := List.mem_filterMap.1 hc
  unfold CommandTree.chainAt at hk
  rw [hroot] at hk
  rcases List.mem_cons.1 hk with rfl | hk
  · rw [hroot] at hget
    cases hget
    exact (hne rfl).elim
  · exact ⟨k, hk, hget⟩

/-- The statement of a chain whose root is windowed starts with the rows that the window counts, and
its further joins neither lose nor repeat one of them: over a database in which every join along a
relationship to one object matches at most one row for each row on its left, the rows that it joins,
as far as the aliases of its start go, are those of its start, in their order. -/
theorem windows_undistorted {cfg : Settings} {s s' : Schema} {plan : Plan} {chain : Chain}
    {db : Database} (hmake : make t cfg s = .ok plan s') (hleft : cfg.join = .left)
    (hchain : chain ∈ plan.chains) (hroot : t.get? chain.root = some root)
    (hwindow : root.isPaginated = true) (hnodup : chain.query.aliases.Nodup)
    (hone : db.MatchesOnce (plan.singleJoins chain) chain.query) :
    ∃ start, startChain t root {} = .ok ⟨⟩ start ∧ chain.query.source = start.source ∧
      start.joins <+: chain.query.joins ∧
      (db.envs chain.query).map (Env.only start.aliases) = db.envs start := by
  obtain ⟨-, hmade⟩ := make_ok (P := fun _ => True) (fun _ _ _ _ _ _ => trivial) trivial hmake
  obtain ⟨shape, hshape, hcompile⟩ := forall₂_mem_right hmade.chains chain hchain
  obtain ⟨rfl, root', hroot', hwrite⟩ := compile_ok hcompile
  rw [hroot] at hroot'
  cases hroot'
  obtain ⟨start, js, hstart, hjs, hsource, hjoins⟩ := writeChain_joins hwrite
  -- every further join is one of a set below a window
  have hsingle : ∀ j ∈ js, j ∈ plan.singleJoins chain ∧ j.kind = .left := by
    intro j hj
    rw [hjs] at hj
    obtain ⟨c, hc, hj⟩ := List.mem_flatMap.1 hj
    obtain ⟨hne, hjoin⟩ := mem_addedJoins hj
    have hchainAt := t.eq_chainAt_of_mem hshape
    have hcommands : c ∈ (t.chainAt chain.root).commands.filterMap t.get? := by
      rw [← hchainAt]
      exact hc
    obtain ⟨k, hk, hget⟩ := mem_fused_of_ne hroot hcommands hne
    have hcardinality := CommandTree.cardinality_of_fused hwindow hk hget
    constructor
    · unfold singleJoins
      rw [hmade.tree, hmade.settings]
      exact List.mem_flatMap.2
        ⟨c, List.mem_filter.2 ⟨hc, decide_eq_true hcardinality⟩, hjoin⟩
    · rw [hleft] at hjoin
      exact CommandTree.kind_joinsOf hjoin
  refine ⟨start, hstart, hsource, ⟨js, hjoins.symm⟩, ?_⟩
  have haliases : chain.query.aliases = (start.addJoins js).aliases := by
    rw [Select.aliases, hsource, hjoins, Select.aliases]
  rw [Database.envs_congr hsource hjoins]
  refine Database.envs_addJoins_only (haliases ▸ hnodup) (fun j hj => (hsingle j hj).2) ?_
  clear hjs
  rintro pre j post rfl env henv
  have hsplit : chain.query.joins = (start.joins ++ pre) ++ j :: post := by
    rw [hjoins, Select.addJoins, List.append_assoc]
  have hj := hsingle j (List.mem_append_right _ (List.mem_cons_self ..))
  refine hone.split hsplit hj.1 env ?_
  rw [Database.envs_congr (q := start.addJoins pre)]
  · exact henv
  · exact hsource
  · rfl

/-- Authors with one book each, in a statement of their own, and with the author of that book and all
books of that author; the policy that would fuse these gives way to the window. -/
def teaser : CommandTree :=
  let t := CommandTree.start 1 author
  let t := (t.push book (some ⟨0, books⟩)).modify 1 fun m => { m with page := { limit := some 1 } }
  let t := t.push author (some ⟨1, writer⟩)
  (t.push book (some ⟨2, books⟩)).modify 3 fun m => { m with policy := .slave }

/-- Two authors, and three books of the first. -/
def stock : Database where
  tuples
    | .named "author" => [.int 1, .int 2].map fun v _ => v
    | .named "book" => [.int 7, .int 8, .int 9].map fun v column => if column = "id" then v else .int 1
    | _ => []
  compare _ _ _ := false
  verbatim _ _ := .null

/-- The statement that windows books joins their author, and counts three rows for three books. -/
theorem windows_undistorted_teaser : ∃ plan s' chain root start,
    make teaser {} { catalog := .ofList [author, book] } = .ok plan s' ∧
      plan.chains.map (·.commands) = [[0], [1, 2], [3]] ∧ chain ∈ plan.chains ∧
      teaser.get? chain.root = some root ∧ root.isPaginated = true ∧
      chain.query.aliases = ["AUTHOR1", "BOOK2", "AUTHOR3"] ∧
      stock.MatchesOnce (plan.singleJoins chain) chain.query ∧
      startChain teaser root {} = .ok ⟨⟩ start ∧ (stock.envs start).length = 3 ∧
      (stock.envs chain.query).map (Env.only start.aliases) = stock.envs start := by
  have hmade : ((made? teaser {} { catalog := .ofList [author, book] }).any fun plan =>
      decide (plan.chains.map (·.commands) = [[0], [1, 2], [3]]) &&
        (plan.chains[1]?).any fun chain =>
          decide (stock.MatchesOnce (plan.singleJoins chain) chain.query) &&
          decide (chain.query.aliases = ["AUTHOR1", "BOOK2", "AUTHOR3"]) &&
          decide ((stock.envs chain.query).length = 3) &&
          (teaser.get? chain.root).any Command.isPaginated) = true := by
    decide +kernel
  obtain ⟨plan, hsome, hfacts⟩ := (Option.any_eq_true _ _).1 hmade
  rw [Bool.and_eq_true, decide_eq_true_eq] at hfacts
  obtain ⟨hchains, hsecond⟩ := hfacts
  obtain ⟨chain, hget, hfacts⟩ := (Option.any_eq_true _ _).1 hsecond
  simp only [Bool.and_eq_true, decide_eq_true_eq] at hfacts
  obtain ⟨⟨⟨hone, haliases⟩, hlength⟩, hroot⟩ := hfacts
  obtain ⟨root, hroot, hwindow⟩ := (Option.any_eq_true _ _).1 hroot
  obtain ⟨s', hmake⟩ := made?_some hsome
  have hchain := List.mem_of_getElem? hget
  have hnodup : chain.query.aliases.Nodup := by
    rw [haliases]
    decide
  obtain ⟨start, hstart, -, -, hrows⟩ :=
    windows_undistorted hmake rfl hchain hroot hwindow hnodup hone
  refine ⟨plan, s', chain, root, start, hmake, hchains, hchain, hroot, hwindow, haliases, hone, hstart,
    ?_, hrows⟩
  rw [← hrows, List.length_map, hlength]

end Plan

end GraphLoad
