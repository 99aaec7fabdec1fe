/-
The tables of a statement. The statement of a chain starts with the table of its source, or of its root
if it has none, and goes on with the joins of its sets, each along the relationship that the set is
loaded along.
-/
import GraphLoad.Proofs.Plan.Placement
import GraphLoad.Proofs.Plan.Scope

namespace GraphLoad

open Sql

/-- The joins by which the statement of a chain comes to a set. Those of its root are inner ones. -/
def CommandTree.joinsAt (t : CommandTree) (kind : JoinKind) (root i : Nat) : List Join :=
  match t.get? i with
  | none => []
  | some c => t.joinsOf (if i = root then .inner else kind) c

theorem CommandTree.joinsAt_of_get? {t : CommandTree} {i : Nat} {c : Command} (hc : t.get? i = some c)
    (kind : JoinKind) (root : Nat) :
    t.joinsAt kind root i = t.joinsOf (if i = root then .inner else kind) c := by
  unfold joinsAt
  rw [hc]

namespace Plan

variable {t : CommandTree} {root : Command} {projections : List (List String)} {kind : JoinKind}
  {q q' : Select}

/-! ## Writing the statement of a chain -/

/-- A statement starts with the table of the source, if there is one, and joins that of the root. -/
theorem startChain_tables (h : startChain t root {} = .ok ⟨⟩ q) :
    let first := (root.parent.bind t.get?).getD root
    q.source = some (.named first.entity.table, first.aliasName) ∧
      q.joins = t.joinsOf .inner root := by
  unfold startChain at h
  cases ho : root.origin <;> rw [ho] at h
  case none =>
    rw [← step_set_ok h, Command.parent, ho, CommandTree.joinsOf, ho]
    exact ⟨rfl, rfl⟩
  case some o =>
    obtain ⟨⟨p, r⟩, q₁, hlift, h⟩ := step_bind_ok h
    obtain ⟨hsource, rfl⟩ := step_lift_ok hlift
    obtain ⟨o', ho', hp, rfl⟩ := sourceOf_ok hsource
    rw [ho] at ho'
    cases ho'
    obtain ⟨⟨⟩, q₁, hset, h⟩ := step_bind_ok h
    have hq₁ := step_set_ok hset
    subst hq₁
    obtain ⟨⟨⟩, q₂, hfields, hjoin⟩ := step_bind_ok h
    have hsame := (selectFields_ok hfields).1
    obtain ⟨js, hjs, rfl⟩ := Relation.join_ok hjoin
    rw [Command.parent, ho, Option.map_some, Option.bind_some, hp, CommandTree.joinsOf_eq ho hp hjs]
    refine ⟨hsame.source, ?_⟩
    show q₂.joins ++ _ = _
    rw [hsame.joins]
    rfl

/-- Further sets come into the statement one by one, each by its number. -/
theorem flatMap_addedJoins (ht : t.Ordered) {ids : List Nat} (hroot : root.id ∉ ids) :
    (ids.filterMap t.get?).flatMap (addedJoins t kind root.id) =
      ids.flatMap (t.joinsAt kind root.id) := by
  induction ids with
  | nil => rfl
  | cons i ids ih =>
    rw [List.mem_cons, not_or] at hroot
    rw [List.flatMap_cons, ← ih hroot.2]
    cases hc : t.get? i with
    | none => rw [List.filterMap_cons_none hc, CommandTree.joinsAt, hc, List.nil_append]
    | some c =>
      rw [List.filterMap_cons_some hc, List.flatMap_cons, CommandTree.joinsAt_of_get? hc,
        if_neg (Ne.symm hroot.1), addedJoins, ht.ids hc, if_neg (Ne.symm hroot.1)]

/-! ## The statements of a plan -/

/-- A plan of a tree whose relationships can be joined, every statement of which knows each of its
tables under an alias of its own. -/
structure Distinct (t : CommandTree) (cfg : Settings) (plan : Plan) : Prop where
  grown : t.Grown
  mapped : ∀ {i c o}, t.get? i = some c → c.origin = some o → o.relation.Mapped
  made : Made (fun _ => True) t cfg plan
  aliases : ∀ chain ∈ plan.chains, chain.query.aliases.Nodup

variable {cfg : Settings} {plan : Plan} {chain : Chain} (hd : plan.Distinct t cfg)
  (hchain : chain ∈ plan.chains)

namespace Distinct

include hd hchain

theorem root_mem : ∃ root, t.get? chain.root = some root ∧ chain.root ∈ chain.commands := by
  have hmem := CommandTree.root_mem_commands (hd.made.shape_mem hchain)
  obtain ⟨root, hroot⟩ := CommandTree.get?_of_lt
    ((CommandTree.partition_chainsFrom hd.grown.ordered).commands _ (hd.made.shape_mem hchain) _ hmem)
  exact ⟨root, hroot, hmem⟩

theorem aliased : ∃ root, t.get? chain.root = some root ∧
    Aliased (chain.source.bind t.get?) (root :: chain.commands.filterMap t.get?) chain.query := by
  obtain ⟨shape, hshape, hcompile⟩ := forall₂_mem_right hd.made.chains chain hchain
  obtain ⟨rfl, -⟩ := compile_ok hcompile
  obtain ⟨root, hroot, haliased⟩ := compile_aliased hd.grown hd.mapped hshape hcompile
  rw [← CommandTree.source_eq hshape hroot] at haliased
  exact ⟨root, hroot, haliased⟩

theorem scope : chain.query.Scoped := by
  obtain ⟨root, -, haliased⟩ := hd.aliased hchain
  exact haliased.scope

theorem known {c : Command}
    (hc : c ∈ chain.commands.filterMap t.get? ∨ chain.source.bind t.get? = some c) :
    c.aliasName ∈ chain.query.aliases := by
  obtain ⟨root, -, haliased⟩ := hd.aliased hchain
  refine haliased.known c ?_
  rcases hc with hc | hc
  · exact List.mem_append_right _ (List.mem_cons_of_mem _ hc)
  · exact List.mem_append_left _ (Option.mem_toList.2 hc)

/-- What the statement of a chain starts with. -/
theorem source {c : Command} (hc : t.get? (chain.source.getD chain.root) = some c) :
    chain.query.source = some (.named c.entity.table, c.aliasName) := by
  obtain ⟨shape, hshape, hcompile⟩ := forall₂_mem_right hd.made.chains chain hchain
  obtain ⟨rfl, root, hroot, hwrite⟩ := compile_ok hcompile
  obtain ⟨start, js, hstart, -, hsource, -⟩ := writeChain_joins hwrite
  have hfirst : (root.parent.bind t.get?).getD root = c := by
    rw [get?_start hd.grown.ordered hshape hroot, CommandTree.source_eq hshape hroot] at hc
    exact Option.some.inj hc
  rw [hsource, ← hfirst]
  exact (startChain_tables hstart).1

/-- What the statement of a chain joins. -/
theorem joins : chain.query.joins = chain.commands.flatMap (t.joinsAt cfg.join chain.root) := by
  obtain ⟨shape, hshape, hcompile⟩ := forall₂_mem_right hd.made.chains chain hchain
  obtain ⟨rfl, root, hroot, hwrite⟩ := compile_ok hcompile
  obtain ⟨start, js, hstart, rfl, -, hjoins⟩ := writeChain_joins hwrite
  have hid := hd.grown.ordered.ids hroot
  obtain ⟨ids, hids⟩ : ∃ ids, chain.commands = chain.root :: ids := by
    have hhead := CommandTree.head?_chainAt t chain.root
    rw [← CommandTree.eq_chainAt_of_mem t hshape] at hhead
    exact List.head?_eq_some_iff.1 hhead
  have hnodup := (List.nodup_flatMap.1 (CommandTree.nodup_commands hd.grown.ordered)).1 _ hshape
  rw [hids, List.nodup_cons] at hnodup
  -- the root has been joined at the start
  have hnone : addedJoins t cfg.join root.id root = [] := if_pos rfl
  rw [hjoins, Select.addJoins, (startChain_tables hstart).2, hids, List.filterMap_cons_some hroot,
    List.flatMap_cons, List.flatMap_cons, hnone, List.nil_append,
    flatMap_addedJoins hd.grown.ordered (hid ▸ hnodup.1), CommandTree.joinsAt_of_get? hroot,
    if_pos rfl, hid]

end Distinct

end Plan

end GraphLoad
