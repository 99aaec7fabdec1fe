/-
The rows that a chain is answered. Whether its statement stands alone or is restricted to the keys of
its source set, what the statement denotes over a database is one row for every environment that
starts from a row the tree reaches; and the set of every command is to hold the rows it reaches.
-/
import GraphLoad.Proofs.Plan.Reach
import GraphLoad.Proofs.Run.Identity
import GraphLoad.Proofs.Run.Keys

namespace GraphLoad

open Sql

namespace Plan

variable {db : Database} {t : CommandTree} {projections : List (List String)} {shape : ChainShape}
  {root : Command} {others : List Command} {q : Select} {env : Env}

/-! ## Where a chain starts -/

/-- Without a source, the environments of a chain are those that meet its condition. -/
theorem answers_first (ht : t.Ordered) (hshape : shape ∈ t.chainsFrom 0)
    (hroot : t.get? shape.root = some root)
    (hwritten : Written db t projections (shape.source.bind t.get?) root (root :: others) q)
    (hsource : shape.source = none) :
    Answers db t shape q env ↔ env ∈ db.envs q ∧ db.truth env q.condition = some true := by
  have hzero := ht.eq_zero hroot (by rw [← CommandTree.source_eq hshape hroot, hsource])
  have hbegun := hwritten.begun.first (by rw [hsource, Option.bind_none])
  unfold Answers
  rw [hsource, Option.getD_none]
  refine and_congr_right fun henv => ?_
  obtain ⟨u, hu, hrow⟩ := hbegun.1 env henv
  rw [hwritten.demands env u hrow]
  have hreach : Reach db t shape.root u ↔ root.Passes db u := by
    rw [hzero] at hroot ⊢
    rw [Reach.first_iff ht hroot]
    exact and_iff_right hu
  unfold Command.Passes at hreach
  rw [← hreach]
  constructor
  · rintro ⟨c, v, hc, hv, hr⟩
    rw [hroot] at hc
    cases hc
    rw [hrow] at hv
    cases hv
    exact hr
  · exact fun hr => ⟨root, u, hroot, hrow, hr⟩

/-- Behind a source, every environment meets the condition, and those of the chain are the ones that
start from a row of the source set. -/
theorem answers_behind (ht : t.Ordered) (hplain : t.Plain) (hshape : shape ∈ t.chainsFrom 0)
    (hroot : t.get? shape.root = some root)
    (hwritten : Written db t projections (shape.source.bind t.get?) root (root :: others) q)
    {s : Nat} {p : Command} (hsource : shape.source = some s) (hp : t.get? s = some p) :
    ∀ env ∈ db.envs q, db.truth env q.condition = some true ∧
      ∃ x ∈ db.tuples (.named p.entity.table), env p.aliasName = some x ∧
        (Answers db t shape q env ↔ Reach db t s x) := by
  intro env henv
  have hbegun := hwritten.begun.later p (by rw [hsource, Option.bind_some, hp])
  obtain ⟨⟨x, hx, hpx⟩, y, hy⟩ := hbegun.1 env henv
  have hlater : shape.root ≠ 0 := by
    intro hzero
    have hparent := CommandTree.source_eq hshape hroot
    rw [hzero] at hroot
    rw [hsource, Command.parent, ht.origin_first hroot] at hparent
    cases hparent
  constructor
  · rw [hwritten.demands env y hy, hplain.predicates hroot hlater]
    exact fun p hp => (List.not_mem_nil hp).elim
  · refine ⟨x, hx, hpx, ?_⟩
    unfold Answers
    rw [hsource, Option.getD_some]
    constructor
    · rintro ⟨-, c, v, hc, hv, hr⟩
      rw [hp] at hc
      cases hc
      rw [hpx] at hv
      cases hv
      exact hr
    · exact fun hr => ⟨henv, p, x, hp, hpx, hr⟩

end Plan

/-- A tree over a database in which the keys of its entities tell rows apart. -/
structure Grounded (db : Database) (t : CommandTree) : Prop where
  ordered : t.Ordered
  plain : t.Plain
  named : ∀ {i j c d}, t.get? i = some c → t.get? j = some d → c.entity.name = d.entity.name →
    c.entity = d.entity
  regular : db.Regular
  keyed : ∀ {i c}, t.get? i = some c → c.entity.Keyed db

/-! ## The rows of a chain -/

namespace Run

/-- A set that holds the objects of exactly the rows that a tree reaches for it. -/
def Found (db : Database) (t : CommandTree) (run : Run) (i : Nat) : Prop :=
  ∀ c, t.get? i = some c → ∀ x, (∃ k ∈ run.setOf i, run.store.identity? k = some x) ↔
    ∃ u, Reach db t i u ∧ c.entity.identityOf u = x

variable {db : Database} {t : CommandTree} {plan : Plan} {chain : Chain} {run : Run} {root : Command}
  {others : List Command}

/-- Every row of a source set has an object, so that the set is empty only if nothing is reached. -/
theorem Found.not_reach {i : Nat} {c : Command} {u : Tuple} (h : run.Found db t i)
    (hc : t.get? i = some c) (hempty : run.setOf i = []) : ¬ Reach db t i u := by
  intro hu
  obtain ⟨k, hk, -⟩ := (h c hc (c.entity.identityOf u)).2 ⟨u, hu, rfl⟩
  rw [hempty] at hk
  cases hk

/-- What a chain is answered, restricted to the keys of its source set where it has one. -/
theorem mem_rows_query (hg : Grounded db t) (htree : plan.tree = t)
    (hshape : chain.toChainShape ∈ t.chainsFrom 0) (hroot : t.get? chain.root = some root)
    (hwritten : Plan.Written db t plan.projections (chain.source.bind t.get?) root (root :: others)
      chain.query)
    (hwf : run.WF t) (hfound : ∀ s, chain.source = some s → run.Found db t s) {query : Select}
    (hquery : queryFor plan chain run = .ok (some query) run) (row : Row) :
    row ∈ db.rows query ↔
      ∃ env, Plan.Answers db t chain.toChainShape chain.query env ∧ db.row chain.query env = row := by
  obtain ⟨-, ⟨hsource, heq⟩ | ⟨s, hsource, ⟨-, heq⟩ | ⟨hne, p, condition, hp, hcondition, heq⟩⟩⟩ :=
    queryFor_ok hquery
  · cases heq
    rw [Database.mem_rows]
    refine exists_congr fun env => ?_
    rw [Plan.answers_first hg.ordered hshape hroot hwritten hsource, and_assoc]
  · cases heq
  · cases heq
    rw [htree] at hp
    rw [Database.mem_rows]
    refine exists_congr fun env => ?_
    show env ∈ db.envs chain.query ∧
      db.truth env (chain.query.condition.and condition) = some true ∧ _ ↔ _
    rw [Condition.truth_and, both_eq_true, ← and_assoc]
    refine and_congr_left fun _ => ?_
    have hobjects : ∀ k ∈ run.setOf s, ∃ u ∈ db.tuples (.named p.entity.table),
        run.store.identity? k = some (p.entity.identityOf u) := by
      intro k hk
      obtain ⟨a, ha, -⟩ := hwf.members hp k hk
      obtain ⟨x, hx⟩ := ObjectStore.exists_identity (ObjectStore.get?_lt ha)
      obtain ⟨u, hu, rfl⟩ := (hfound s hsource p hp x).1 ⟨k, hk, hx⟩
      exact ⟨u, hu.mem_tuples hg.ordered hg.plain hp, hx⟩
    have hbehind := Plan.answers_behind hg.ordered hg.plain hshape hroot hwritten hsource hp
    -- the keys are those of the objects that were found, which are those of the rows reached
    constructor
    · rintro ⟨henv, -, htrue⟩
      obtain ⟨-, x, hx, hpx, hiff⟩ := hbehind env henv
      rw [keyCondition_ok hcondition hg.regular (hg.keyed hp) hne hobjects hx hpx,
        hfound s hsource p hp] at htrue
      obtain ⟨u, hu, heq⟩ := htrue
      have hin := hu.mem_tuples hg.ordered hg.plain hp
      have hux : u = x := (hg.keyed hp).eq_of_identityOf
        (Entity.keyOf_regular hg.regular hin _) hin hx heq
      exact hiff.2 (hux ▸ hu)
    · intro hanswers
      obtain ⟨hcond, x, hx, hpx, hiff⟩ := hbehind env hanswers.1
      refine ⟨hanswers.1, hcond, ?_⟩
      rw [keyCondition_ok hcondition hg.regular (hg.keyed hp) hne hobjects hx hpx, hfound s hsource p hp]
      exact ⟨x, hiff.1 hanswers, rfl⟩

end Run

end GraphLoad
