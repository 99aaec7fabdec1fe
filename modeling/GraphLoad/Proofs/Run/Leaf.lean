/-
Plans of trees that differ by a leaf. A set that nothing is loaded from comes into a statement between
the other sets, as further left joins and further columns, or into a statement of its own. Provided that
no field of it has the label of a key field of another set of its statement, every chain of the smaller
tree has a chain of the greater one that loads its sets alike.
-/
import GraphLoad.Proofs.Plan.Condition
import GraphLoad.Proofs.Plan.Leaf
import GraphLoad.Proofs.Plan.Tables
import GraphLoad.Proofs.Run.Alike
import GraphLoad.Proofs.Sql.Inserting

namespace GraphLoad

open Sql

/-- Predicates of a set are met wherever the same stands under its alias. -/
theorem Command.met_congr {db : Database} {env env' : Env} {c : Command}
    (h : env' c.aliasName = env c.aliasName) : c.Met db env' ↔ c.Met db env := by
  unfold Met
  refine forall₂_congr fun p _ => exists_congr fun name => and_congr_right fun _ => ?_
  rw [(Condition.reads_predicate p c.aliasName name).truth_congr h]

namespace CommandTree.Extends

variable {t t' : CommandTree} (h : t.Extends t')
include h

/-! ## The statements of a tree with one more set -/

theorem joinsAt (ht : t.Ordered) (kind : JoinKind) (root : Nat) {i : Nat} (hi : i < t.size) :
    t'.joinsAt kind root i = t.joinsAt kind root i := by
  obtain ⟨c, hc⟩ := get?_of_lt hi
  rw [joinsAt_of_get? (h.get? hc), joinsAt_of_get? hc]
  have horigin : (t'.again c).origin = c.origin := rfl
  unfold joinsOf
  rw [horigin]
  cases ho : c.origin with
  | none => rfl
  | some o =>
    obtain ⟨-, p, hp, -⟩ := ht.sources hc ho
    dsimp only
    rw [h.get? hp, hp]
    rfl

theorem filterMap {ids : List Nat} (hids : ∀ i ∈ ids, i < t.size) :
    ids.filterMap t'.get? = (ids.filterMap t.get?).map t'.again := by
  rw [List.map_filterMap]
  exact List.filterMap_congr fun i hi => h.old i (hids i hi)

variable {P : Schema → Prop} {cfg cfg' : Settings} {plan plan' : Plan}

/-- The fields of a set are chosen by its projection alone. -/
theorem fieldsOf (ht : t.Ordered) (hmade : Plan.Made P t cfg plan)
    (hmade' : Plan.Made P t' cfg' plan') {i : Nat} {c : Command} (hc : t.get? i = some c) :
    Plan.fieldsOf plan'.projections (t'.again c) =
      (Plan.fieldsOf plan.projections c).map fun p => (t'.again p.1, p.2) := by
  obtain ⟨fields, hfields, hresolve⟩ := hmade.projected hc
  obtain ⟨fields', hfields', hresolve'⟩ := hmade'.projected (h.get? hc)
  have hsame : fields' = fields := Except.ok.inj (hresolve'.symm.trans hresolve)
  have hid : (t'.again c).id = c.id := rfl
  unfold Plan.fieldsOf
  rw [hid, ht.ids hc, hfields, hfields', hsame, Option.getD_some, List.map_map]
  rfl

end CommandTree.Extends

namespace Plan

/-- A plan in no statement of which a field of a set has the label of a key field of another set. -/
def KeysApart (plan : Plan) (leaf : Nat) : Prop :=
  ∀ chain ∈ plan.chains, ∀ p ∈ plan.selected chain.toChainShape, p.1.id = leaf →
    ∀ c ∈ chain.commands.filterMap plan.tree.get?, c.id ≠ leaf → ∀ field ∈ c.entity.primaryKey,
      label p.1.aliasName p.2 ≠ label c.aliasName field

instance (plan : Plan) (leaf : Nat) : Decidable (plan.KeysApart leaf) :=
  inferInstanceAs (Decidable (∀ chain ∈ plan.chains, ∀ p ∈ plan.selected chain.toChainShape,
    p.1.id = leaf → ∀ c ∈ chain.commands.filterMap plan.tree.get?, c.id ≠ leaf →
      ∀ field ∈ c.entity.primaryKey, label p.1.aliasName p.2 ≠ label c.aliasName field))

variable {db : Database} {t t' : CommandTree} {cfg : Settings} {plan plan' : Plan}
  {chain chain' : Chain}

namespace Distinct

variable (hd : plan.Distinct t cfg)
include hd

theorem lt_size (hchain : chain ∈ plan.chains) {i : Nat} (hi : i ∈ chain.commands) : i < t.size :=
  (CommandTree.partition_chainsFrom hd.grown.ordered).commands _ (hd.made.shape_mem hchain) i hi

theorem selects (hchain : chain ∈ plan.chains) :
    Selects (plan.selected chain.toChainShape) chain.query := by
  unfold selected
  rw [hd.made.tree]
  exact hd.made.selects hchain

/-- What a statement selects are fields of the sets of its chain and of their source. -/
theorem mem_selected {p : Command × String} (hp : p ∈ plan.selected chain.toChainShape) :
    p.1 ∈ chain.commands.filterMap t.get? ∨ chain.source.bind t.get? = some p.1 := by
  unfold selected at hp
  rw [hd.made.tree] at hp
  rcases List.mem_append.1 hp with hp | hp
  · obtain ⟨c, hc, hp⟩ := List.mem_flatMap.1 hp
    obtain ⟨field, -, rfl⟩ := List.mem_map.1 hp
    exact .inr (Option.mem_toList.1 hc)
  · obtain ⟨c, hc, hp⟩ := List.mem_flatMap.1 hp
    obtain ⟨field, -, rfl⟩ := List.mem_map.1 hp
    exact .inl hc

theorem key_mem_selected {i : Nat} {c : Command} (hi : i ∈ chain.commands) (hc : t.get? i = some c)
    {field : String} (hfield : field ∈ c.entity.primaryKey) :
    (c, field) ∈ plan.selected chain.toChainShape := by
  unfold selected
  rw [hd.made.tree]
  exact List.mem_append_right _ (List.mem_flatMap.2
    ⟨c, List.mem_filterMap.2 ⟨i, hi, hc⟩, hd.made.keys hd.grown.ordered hc field hfield⟩)

end Distinct

/-! ## A chain with one more set -/

section
variable (h : t.Extends t') (hd : plan.Distinct t cfg) (hd' : plan'.Distinct t' cfg)
  (hchain : chain ∈ plan.chains)
  (hgains : CommandTree.Gains t.size chain.toChainShape chain'.toChainShape)
include h hd hd' hchain hgains

/-- The statement of the greater chain selects what that of the smaller one does, and the fields of the
new set in between. -/
theorem selected_gains : ∃ keys before after added,
    plan.selected chain.toChainShape = keys ++ (before ++ after) ∧
      plan'.selected chain'.toChainShape = keys.map (Prod.map t'.again id) ++
        (before.map (Prod.map t'.again id) ++ added ++ after.map (Prod.map t'.again id)) ∧
      ∀ q ∈ added, q.1.id = t.size := by
  have ht := hd.grown.ordered
  obtain ⟨pre, mid, post, hcommands, hcommands', hmid⟩ := hgains.commands
  have hfields : ∀ ids : List Nat, (∀ i ∈ ids, i ∈ chain.commands) →
      (ids.filterMap t'.get?).flatMap (fieldsOf plan'.projections) =
        ((ids.filterMap t.get?).flatMap (fieldsOf plan.projections)).map (Prod.map t'.again id) := by
    intro ids hids
    rw [h.filterMap fun i hi => hd.lt_size hchain (hids i hi), List.flatMap_map, List.map_flatMap]
    refine List.flatMap_congr fun c hc => ?_
    obtain ⟨i, -, hget⟩ := List.mem_filterMap.1 hc
    exact h.fieldsOf ht hd.made hd'.made hget
  have hkeys : ((chain'.source.bind t'.get?).toList.flatMap fun c =>
      c.entity.primaryKey.map fun field => (c, field)) =
        ((chain.source.bind t.get?).toList.flatMap fun c =>
          c.entity.primaryKey.map fun field => (c, field)).map (Prod.map t'.again id) := by
    rw [hgains.source]
    cases hs : chain.source with
    | none => rfl
    | some s =>
      obtain ⟨root, hroot, hmem⟩ := hd.root_mem hchain
      have hlt := Nat.lt_trans (hd.made.source_lt ht hchain hs hmem) (CommandTree.get?_lt hroot)
      obtain ⟨c, hc⟩ := CommandTree.get?_of_lt hlt
      simp [hc, h.get? hc, CommandTree.again]
  refine ⟨(chain.source.bind t.get?).toList.flatMap fun c =>
      c.entity.primaryKey.map fun field => (c, field),
    (pre.filterMap t.get?).flatMap (fieldsOf plan.projections),
    (post.filterMap t.get?).flatMap (fieldsOf plan.projections),
    (mid.filterMap t'.get?).flatMap (fieldsOf plan'.projections), ?_, ?_, fun q hq => ?_⟩
  · unfold selected
    rw [hd.made.tree, hcommands, List.filterMap_append, List.flatMap_append]
  · unfold selected
    rw [hd'.made.tree, hkeys, hcommands', List.filterMap_append, List.filterMap_append,
      List.flatMap_append, List.flatMap_append,
      hfields pre fun i hi => hcommands ▸ List.mem_append_left _ hi,
      hfields post fun i hi => hcommands ▸ List.mem_append_right _ hi]
  · obtain ⟨c, hc, hq⟩ := List.mem_flatMap.1 hq
    obtain ⟨i, hi, hget⟩ := List.mem_filterMap.1 hc
    obtain ⟨field, -, rfl⟩ := List.mem_map.1 hq
    exact (hd'.grown.ordered.ids hget).trans (hmid i hi)

variable (hchain' : chain' ∈ plan'.chains)
include hchain'

/-- Of the fields under the label of a key field of another set, the one that comes first is the same as
without the new set. -/
theorem selected_first (hkeys : plan'.KeysApart t.size) {i : Nat} {c : Command}
    (hi : i ∈ chain.commands) (hc : t.get? i = some c) {field : String}
    (hfield : field ∈ c.entity.primaryKey) :
    (plan'.selected chain'.toChainShape).find?
        (fun q => label q.1.aliasName q.2 == label c.aliasName field) =
      ((plan.selected chain.toChainShape).find?
        fun q => label q.1.aliasName q.2 == label c.aliasName field).map (Prod.map t'.again id) := by
  obtain ⟨keys, before, after, added, hselected, hselected', hadded⟩ :=
    selected_gains h hd hd' hchain hgains
  have hkept : t'.again c ∈ chain'.commands.filterMap plan'.tree.get? := by
    rw [hd'.made.tree]
    exact List.mem_filterMap.2 ⟨i, hgains.mem_of_mem hi, h.get? hc⟩
  have hother : (t'.again c).id ≠ t.size := by
    show c.id ≠ t.size
    rw [hd.grown.ordered.ids hc]
    exact Nat.ne_of_lt (hd.lt_size hchain hi)
  -- no field of the new set has the label
  have hnone : added.find? (fun q => label q.1.aliasName q.2 == label c.aliasName field) = none := by
    refine List.find?_eq_none.2 fun q hq hsame => ?_
    refine hkeys chain' hchain' q ?_ (hadded q hq) _ hkept hother field hfield (beq_iff_eq.1 hsame)
    rw [hselected']
    exact List.mem_append_right _ (List.mem_append_left _ (List.mem_append_right _ hq))
  rw [hselected, hselected']
  simp only [List.find?_append, List.find?_map, hnone, Option.or_none, Option.map_or]
  rfl

/-- The new set is joined to the left, so the statement keeps what it had. -/
theorem widens_gains (hjoin : cfg.join = .left) : db.Widens chain.query chain'.query := by
  have ht := hd.grown.ordered
  obtain ⟨pre, mid, post, hcommands, hcommands', hmid⟩ := hgains.commands
  obtain ⟨root, hroot, hmem⟩ := hd.root_mem hchain
  have hsource : chain'.query.source = chain.query.source := by
    obtain ⟨first, hfirst⟩ : ∃ c, t.get? (chain.source.getD chain.root) = some c := by
      cases hs : chain.source with
      | none => exact ⟨root, hroot⟩
      | some s =>
        exact CommandTree.get?_of_lt
          (Nat.lt_trans (hd.made.source_lt ht hchain hs hmem) (CommandTree.get?_lt hroot))
    have hfirst' : t'.get? (chain'.source.getD chain'.root) = some (t'.again first) := by
      rw [hgains.source, hgains.root]
      exact h.get? hfirst
    rw [hd.source hchain hfirst, hd'.source hchain' hfirst']
    rfl
  have hsame : ∀ ids : List Nat, (∀ i ∈ ids, i ∈ chain.commands) →
      ids.flatMap (t'.joinsAt cfg.join chain.root) = ids.flatMap (t.joinsAt cfg.join chain.root) :=
    fun ids hids => List.flatMap_congr fun i hi => h.joinsAt ht _ _ (hd.lt_size hchain (hids i hi))
  have hjoins' : chain'.query.joins = pre.flatMap (t.joinsAt cfg.join chain.root) ++
      mid.flatMap (t'.joinsAt cfg.join chain.root) ++
        post.flatMap (t.joinsAt cfg.join chain.root) := by
    rw [hd'.joins hchain', hcommands', hgains.root, List.flatMap_append, List.flatMap_append,
      hsame pre fun i hi => hcommands ▸ List.mem_append_left _ hi,
      hsame post fun i hi => hcommands ▸ List.mem_append_right _ hi]
  refine Database.widens_insert (hd.scope hchain) (hd'.aliases _ hchain') hsource ?_ hjoins' ?_
  · rw [hd.joins hchain, hcommands, List.flatMap_append]
  · intro j hj
    obtain ⟨i, hi, hj⟩ := List.mem_flatMap.1 hj
    have hne : i ≠ chain.root := by
      rw [hmid i hi]
      exact Nat.ne_of_gt (CommandTree.get?_lt hroot)
    unfold CommandTree.joinsAt at hj
    split at hj
    · cases hj
    · rw [if_neg hne] at hj
      rw [CommandTree.kind_joinsOf hj, hjoin]

/-- A set without predicates demands nothing. -/
theorem demands_gains (hplain : ∀ c, t'.get? t.size = some c → c.modifiers.predicates = [])
    {env env' : Env} (hsame : ∀ b ∈ chain.query.aliases, env' b = env b) :
    db.truth env' chain'.query.condition = some true ↔
      db.truth env chain.query.condition = some true := by
  have hmet : ∀ {i c}, i ∈ chain.commands → t.get? i = some c →
      ((t'.again c).Met db env' ↔ c.Met db env) := fun {i c} hi hc =>
    Command.met_congr (c := c)
      (hsame _ (hd.known hchain (.inl (List.mem_filterMap.2 ⟨i, hi, hc⟩))))
  rw [hd.made.condition hchain, hd'.made.condition hchain']
  constructor
  · intro hall c hc
    obtain ⟨i, hi, hget⟩ := List.mem_filterMap.1 hc
    exact (hmet hi hget).1
      (hall _ (List.mem_filterMap.2 ⟨i, hgains.mem_of_mem hi, h.get? hget⟩))
  · intro hall c hc
    obtain ⟨i, hi, hget⟩ := List.mem_filterMap.1 hc
    rcases hgains.mem hi with hi | rfl
    · obtain ⟨d, hd⟩ := CommandTree.get?_of_lt (hd.lt_size hchain hi)
      rw [h.get? hd] at hget
      cases hget
      exact (hmet hi hd).2 (hall d (List.mem_filterMap.2 ⟨i, hi, hd⟩))
    · intro p hp
      rw [hplain c hget] at hp
      cases hp

/-- The rows have the keys of another set under its labels, as they had without the new set. -/
theorem keys_gains (hkeys : plan'.KeysApart t.size) {i : Nat} {c : Command}
    (hi : i ∈ chain.commands) (hc : t.get? i = some c) {env env' : Env}
    (hsame : ∀ b ∈ chain.query.aliases, env' b = env b) :
    c.entity.rowKey (db.row chain'.query env') c.aliasName =
      c.entity.rowKey (db.row chain.query env) c.aliasName := by
  refine Entity.rowKey_congr fun field hfield => ?_
  have hmem := hd.key_mem_selected hi hc hfield
  obtain ⟨p, hp⟩ : ∃ p, (plan.selected chain.toChainShape).find?
      (fun q => label q.1.aliasName q.2 == label c.aliasName field) = some p :=
    Option.isSome_iff_exists.1 (List.find?_isSome.2 ⟨_, hmem, beq_self_eq_true _⟩)
  have hp' := selected_first h hd hd' hchain hgains hchain' hkeys hi hc hfield
  rw [hp, Option.map_some] at hp'
  unfold Row.value?
  rw [get?_row (hd'.selects hchain') hp', get?_row (hd.selects hchain) hp]
  -- what stands under the alias of the first field is what stood there
  have hknown := hd.known hchain (hd.mem_selected (List.mem_of_find?_eq_some hp))
  show some (p.1.cell env' p.2) = _
  unfold Command.cell
  rw [hsame _ hknown]

end

/-- Every chain is there in the plan of a tree with one more set. -/
theorem exists_gains (h : t.Extends t') (hd : plan.Distinct t cfg) (hd' : plan'.Distinct t' cfg)
    (hchain : chain ∈ plan.chains) :
    ∃ chain' ∈ plan'.chains, CommandTree.Gains t.size chain.toChainShape chain'.toChainShape := by
  obtain ⟨shape', hshape', hgains⟩ :=
    h.chain hd.grown.ordered hd'.grown.ordered (hd.made.shape_mem hchain)
  rw [← hd'.made.shapes] at hshape'
  obtain ⟨chain', hchain', rfl⟩ := List.mem_map.1 hshape'
  exact ⟨chain', hchain', hgains⟩

/-- There it loads its sets alike, if the new set is joined to the left and demands nothing. -/
theorem exists_alike (h : t.Extends t') (hd : plan.Distinct t cfg) (hd' : plan'.Distinct t' cfg)
    (hjoin : cfg.join = .left) (hplain : ∀ c, t'.get? t.size = some c → c.modifiers.predicates = [])
    (hkeys : plan'.KeysApart t.size) (hchain : chain ∈ plan.chains) :
    ∃ chain' ∈ plan'.chains, Alike db t chain chain' := by
  obtain ⟨chain', hchain', hgains⟩ := exists_gains h hd hd' hchain
  refine ⟨chain', hchain', hgains.source, fun i => hgains.mem_of_mem,
    widens_gains h hd hd' hchain hgains hchain' hjoin, fun s p hs hp => ?_,
    fun env env' => demands_gains h hd hd' hchain hgains hchain' hplain,
    fun i hi c hc env env' => keys_gains h hd hd' hchain hgains hchain' hkeys hi hc⟩
  exact hd.known hchain (.inr (by rw [hs, Option.bind_some, hp]))

end Plan

end GraphLoad
