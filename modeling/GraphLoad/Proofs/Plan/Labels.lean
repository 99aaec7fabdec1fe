/-
What the statement of a chain selects, whatever kind of join it is written with: the key of its source
and of each of its sets what the projection chooses, which is never without the key.
-/
import GraphLoad.Proofs.Plan.Cover
import GraphLoad.Proofs.Plan.Statement

namespace GraphLoad

open Sql

/-- A projection never leaves out the primary key. -/
theorem Projection.mem_resolve {p : Projection} {e : Entity} {fields : List String}
    (h : p.resolve e = .ok fields) : ∀ field ∈ e.primaryKey, field ∈ fields := by
  intro field hfield
  unfold resolve at h
  split at h
  · cases h
  · cases h
    refine List.mem_filter.2 ⟨e.primaryKey_declared field hfield, ?_⟩
    cases p with
    | all => rfl
    | only fields => simp [takes, hfield]
    | except fields => simp [takes, hfield]

namespace Plan

variable {t : CommandTree} {root : Command} {projections : List (List String)} {kind : JoinKind}
  {q q' : Select}

/-- A chain begins with the key of its source. -/
theorem startChain_selects (h : startChain t root {} = .ok ⟨⟩ q) :
    Selects ((root.parent.bind t.get?).toList.flatMap fun p =>
      p.entity.primaryKey.map fun field => (p, field)) q := by
  unfold startChain at h
  cases ho : root.origin <;> rw [ho] at h
  case none =>
    rw [Command.parent, ho, ← step_set_ok h]
    exact selects_ofTable ..
  case some o =>
    obtain ⟨⟨p, r⟩, q₁, hlift, h⟩ := step_bind_ok h
    obtain ⟨hsource, rfl⟩ := step_lift_ok hlift
    obtain ⟨o', ho', hp, rfl⟩ := sourceOf_ok hsource
    rw [ho] at ho'
    cases ho'
    obtain ⟨⟨⟩, q₁, hset, h⟩ := step_bind_ok h
    have hq₁ := step_set_ok hset
    subst hq₁
    obtain ⟨⟨⟩, q₂, hfields, hjoin⟩ := step_bind_ok h
    obtain ⟨js, -, rfl⟩ := Relation.join_ok hjoin
    have hparent : (root.parent.bind t.get?).toList = [p] := by
      rw [Command.parent, ho, Option.map_some, Option.bind_some, hp, Option.toList_some]
    rw [hparent, List.flatMap_singleton]
    exact selects_congr ((selectFields_ok hfields).2 [] (selects_ofTable ..)) rfl

/-- Predicates are demanded of what the statement joins and selects already. -/
theorem addPredicates_keeps {c : Command} {ps : List Predicate}
    (h : ps.forM (addPredicate c) q = .ok ⟨⟩ q') :
    q'.source = q.source ∧ q'.joins = q.joins ∧ q'.columns = q.columns := by
  refine forM_keeps (P := fun q₁ => q₁.source = q.source ∧ q₁.joins = q.joins ∧
    q₁.columns = q.columns) (fun p _ q₁ q₂ hq₁ hp => ?_) ⟨rfl, rfl, rfl⟩ h
  unfold addPredicate at hp
  obtain ⟨x, q₃, hlift, hp⟩ := step_bind_ok hp
  obtain ⟨-, rfl⟩ := step_lift_ok hlift
  rw [← step_modify_ok hp]
  exact hq₁

/-- Every set of a chain adds the fields of its projection. -/
theorem addCommand_selects {c : Command}
    (h : addCommand t root.id projections kind c q = .ok ⟨⟩ q') {fields : List (Command × String)}
    (hq : Selects fields q) : Selects (fields ++ fieldsOf projections c) q' := by
  obtain ⟨q₁, q₂, -, -, hselects, hpredicates⟩ := addCommand_ok h
  exact selects_congr (hselects fields hq) (addPredicates_keeps hpredicates).2.2

theorem writeChain_selects {commands : List Command}
    (h : writeChain t projections kind root commands {} = .ok ⟨⟩ q) :
    Selects (((root.parent.bind t.get?).toList.flatMap fun p =>
      p.entity.primaryKey.map fun field => (p, field)) ++
        commands.flatMap (fieldsOf projections)) q := by
  unfold writeChain at h
  obtain ⟨⟨⟩, q₀, hbegin, h⟩ := step_bind_ok h
  obtain ⟨⟨⟩, q₁, hcommands, h⟩ := step_bind_ok h
  obtain ⟨⟨⟩, q₂, horders, hpage⟩ := step_bind_ok h
  have hsets := forM_builds (P := fun pre q₁ => Selects (((root.parent.bind t.get?).toList.flatMap
      fun p => p.entity.primaryKey.map fun field => (p, field)) ++ pre.flatMap (fieldsOf projections)) q₁)
    (fun pre c post _ q₃ q₄ hq hstep => by
      rw [List.flatMap_append, ← List.append_assoc, List.flatMap_singleton]
      exact addCommand_selects hstep hq)
    (by rw [List.flatMap_nil, List.append_nil]; exact startChain_selects hbegin) hcommands
  refine selects_congr hsets ?_
  rw [← step_modify_ok hpage]
  exact (addOrders_ok horders).2

/-- What the statement of a chain of a plan selects is labelled by its sets. -/
theorem Made.selects {P : Schema → Prop} {cfg : Settings} {plan : Plan} (hmade : Made P t cfg plan)
    {chain : Chain} (hchain : chain ∈ plan.chains) :
    Selects (((chain.source.bind t.get?).toList.flatMap fun p =>
      p.entity.primaryKey.map fun field => (p, field)) ++
        (chain.commands.filterMap t.get?).flatMap (fieldsOf plan.projections)) chain.query := by
  obtain ⟨shape, hshape, hcompile⟩ := forall₂_mem_right hmade.chains chain hchain
  obtain ⟨rfl, root, hroot, hwrite⟩ := compile_ok hcompile
  rw [CommandTree.source_eq hshape hroot]
  exact writeChain_selects hwrite

/-- The fields of a set are those that its projection resolves to. -/
theorem Made.projected {P : Schema → Prop} {cfg : Settings} {plan : Plan} (hmade : Made P t cfg plan)
    {i : Nat} {c : Command} (hc : t.get? i = some c) : ∃ fields,
      plan.projections[i]? = some fields ∧ c.modifiers.projection.resolve c.entity = .ok fields := by
  have hlt := CommandTree.get?_lt hc
  unfold CommandTree.size at hlt
  rw [hmade.projections.length_eq] at hlt
  have hfields := List.getElem?_eq_getElem hlt
  exact ⟨_, hfields, forall₂_getElem? hmade.projections hc hfields⟩

/-- The fields of a set include its key. -/
theorem Made.keys (ht : t.Ordered) {P : Schema → Prop} {cfg : Settings} {plan : Plan}
    (hmade : Made P t cfg plan) {i : Nat} {c : Command} (hc : t.get? i = some c) :
    ∀ field ∈ c.entity.primaryKey, (c, field) ∈ fieldsOf plan.projections c := by
  intro field hfield
  obtain ⟨fields, hfields, hresolve⟩ := hmade.projected hc
  unfold fieldsOf
  rw [ht.ids hc, hfields]
  exact List.mem_map_of_mem (Projection.mem_resolve hresolve field hfield)

/-- The keys of the sets and of the source of a chain are among its labels. -/
theorem Made.key_labels (ht : t.Ordered) {P : Schema → Prop} {cfg : Settings} {plan : Plan}
    (hmade : Made P t cfg plan) {chain : Chain} (hchain : chain ∈ plan.chains) {c : Command}
    (hc : c ∈ chain.commands.filterMap t.get? ∨ chain.source.bind t.get? = some c)
    {field : String} (hfield : field ∈ c.entity.primaryKey) :
    label c.aliasName field ∈ chain.query.labels := by
  have hselects := hmade.selects hchain
  suffices hsuffices : (c, field) ∈ ((chain.source.bind t.get?).toList.flatMap fun p =>
      p.entity.primaryKey.map fun field => (p, field)) ++
        (chain.commands.filterMap t.get?).flatMap (fieldsOf plan.projections) by
    obtain ⟨column, hcolumn, hlabel⟩ := hselects.found _ hsuffices
    exact List.mem_map.2 ⟨column, hcolumn, hlabel⟩
  rcases hc with hc | hc
  · refine List.mem_append_right _ (List.mem_flatMap.2 ⟨c, hc, ?_⟩)
    obtain ⟨i, -, hget⟩ := List.mem_filterMap.1 hc
    exact hmade.keys ht hget field hfield
  · refine List.mem_append_left _ (List.mem_flatMap.2 ⟨c, ?_, List.mem_map_of_mem hfield⟩)
    rw [hc]
    exact List.mem_singleton_self c

end Plan

end GraphLoad
