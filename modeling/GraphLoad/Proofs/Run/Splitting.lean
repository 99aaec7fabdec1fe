/-
Splitting a load. Policies decide how many statements load a tree: a single wide one that joins every
set to the one it is loaded from, or many narrow ones, each restricted to the keys that its source set
was found to have. Main statement: over one database both load the same, provided that no two
selected fields of different sets share a label.
-/
import GraphLoad.Proofs.Command.Policies
import GraphLoad.Proofs.Plan.Labels
import GraphLoad.Proofs.Run.Serving
import GraphLoad.Proofs.Schema.Reverse

namespace GraphLoad

open Sql

/-! ## What is compared -/

/-- Whether two properties, each of an object of its own store, hold the same. -/
def SameRelated (s s' : ObjectStore) : Option Related → Option Related → Prop
  | none, none => True
  | some (.many ids), some (.many ids') =>
    ∀ x, (∃ i ∈ ids, s.identity? i = some x) ↔ ∃ j ∈ ids', s'.identity? j = some x
  | some (.one i), some (.one j) => s.identity? i = s'.identity? j
  | _, _ => False

/-- Outputs that hold the same: the same in every set, the same objects all in all, and the same under
every property of an object. Objects are told apart by their entities and keys. -/
structure Output.SameLoad (a b : Output) : Prop where
  sets : List.Forall₂ (fun x y => x.aliasName = y.aliasName ∧ x.entity = y.entity ∧
    ∀ z, (∃ i ∈ x.objects, a.store.identity? i = some z) ↔
      ∃ j ∈ y.objects, b.store.identity? j = some z) a.sets b.sets
  objects : ∀ z, (∃ i, a.store.identity? i = some z) ↔ ∃ j, b.store.identity? j = some z
  properties : ∀ i j z, a.store.identity? i = some z → b.store.identity? j = some z →
    ∀ p, SameRelated a.store b.store (a.store.related? i p) (b.store.related? j p)

/-- Properties of which the same is told hold the same. -/
theorem ObjectStore.Tells.same {s s' : ObjectStore} {F : Fact → Prop} {x : Identity} {p : String}
    {r r' : Option Related} (h : s.Tells F x p r) (h' : s'.Tells F x p r')
    (hr : ∀ k, r = some (.one k) → ∃ y, s.identity? k = some y)
    (hr' : ∀ k, r' = some (.one k) → ∃ y, s'.identity? k = some y) : SameRelated s s' r r' := by
  rcases r with _ | k | ids
  · rcases r' with _ | k' | ids'
    · trivial
    · obtain ⟨y, hy⟩ := hr' k' rfl
      exact (h.2 y ((h'.2 y).2 hy)).elim
    · exact (h.1 h'.1).elim
  · obtain ⟨y, hy⟩ := hr k rfl
    have hone := (h.2 y).2 hy
    rcases r' with _ | k' | ids'
    · exact (h'.2 y hone).elim
    · show s.identity? k = s'.identity? k'
      rw [hy, (h'.2 y).1 hone]
    · exact (h.1 h'.1).elim
  · rcases r' with _ | k' | ids'
    · exact (h'.1 h.1).elim
    · exact (h'.1 h.1).elim
    · exact fun y => (h.2 y).symm.trans (h'.2 y)

/-- Stores that show the same facts hold the same under every property. -/
theorem ObjectStore.Shows.same {s s' : ObjectStore} {F : Fact → Prop} (h : s.Shows F) (h' : s'.Shows F)
    (hwf : s.WF) (hwf' : s'.WF) {i j : Nat} {x : Identity} (hi : s.identity? i = some x)
    (hj : s'.identity? j = some x) (p : String) :
    SameRelated s s' (s.related? i p) (s'.related? j p) := by
  have htarget : ∀ {s : ObjectStore}, s.WF → ∀ {i : Nat} (k : Nat), s.related? i p = some (.one k) →
      ∃ y, s.identity? k = some y := by
    intro s hwf i k hk
    obtain ⟨a, ha, hr⟩ := Option.bind_eq_some_iff.1 hk
    exact exists_identity (hwf.linked ha hr k (List.mem_singleton_self k))
  exact (h.tells i x p hi).same (h'.tells j x p hj) (htarget hwf) (htarget hwf')

/-! ## What is loaded -/

/-- A tree of a schema, without windows, of which only the first set has predicates. -/
structure CommandTree.Asked (t : CommandTree) (s : Schema) : Prop where
  grown : t.Grown
  first : ∀ c, t.get? 0 = some c → s.catalog.find? c.entity.name = some c.entity
  relations : ∀ {i c o}, t.get? i = some c → c.origin = some o →
    ∃ entity name, s.resolved.get? (entity, name) = some o.relation
  unpaged : ∀ {i c}, t.get? i = some c → c.isPaginated = false
  predicates : ∀ {i c}, t.get? i = some c → i ≠ 0 → c.modifiers.predicates = []

namespace Plan

/-- The properties that a plan writes as collections, each with the entity whose objects have it. -/
def collections (plan : Plan) : List (String × String) :=
  plan.tree.commands.filterMap fun c =>
    (c.relation.filter fun r => r.isMany).map fun r => (r.source.name, r.property)

/-- The properties that a plan writes for one object, along its relationships and back. -/
def singles (plan : Plan) : List (String × String) :=
  plan.tree.commands.flatMap fun c =>
    ((c.relation.filter fun r => !r.isMany).map fun r => (r.source.name, r.property)).toList ++
      ((Relation.backProperty (plan.reverse? c.id)).map fun p => (c.entity.name, p)).toList

/-- A plan whose statements know every table under its own alias, and that writes no property both as
a collection and for one object. -/
structure Clear (plan : Plan) : Prop where
  aliases : ∀ chain ∈ plan.chains, chain.query.aliases.Nodup
  properties : ∀ p ∈ plan.singles, p ∉ plan.collections

/-- A plan none of whose statements selects fields of two sets under one label. -/
def LabelsApart (plan : Plan) : Prop :=
  ∀ chain ∈ plan.chains, ∀ a ∈ plan.selected chain.toChainShape,
    ∀ b ∈ plan.selected chain.toChainShape,
    label a.1.aliasName a.2 = label b.1.aliasName b.2 → a.1.aliasName = b.1.aliasName

instance (plan : Plan) : Decidable plan.Clear :=
  decidable_of_iff ((∀ chain ∈ plan.chains, chain.query.aliases.Nodup) ∧
    ∀ p ∈ plan.singles, p ∉ plan.collections) ⟨fun h => ⟨h.1, h.2⟩, fun h => ⟨h.aliases, h.properties⟩⟩

instance (plan : Plan) : Decidable plan.LabelsApart :=
  inferInstanceAs (Decidable (∀ chain ∈ plan.chains, ∀ a ∈ plan.selected chain.toChainShape,
    ∀ b ∈ plan.selected chain.toChainShape,
    label a.1.aliasName a.2 = label b.1.aliasName b.2 → a.1.aliasName = b.1.aliasName))

/-! ## What a plan of such a tree relies on -/

section
variable {t : CommandTree} {s : Schema} (hs : s.Reachable) (ht : t.Asked s)
include hs ht

theorem relation_of_asked {i : Nat} {c : Command} {o : Origin} (hc : t.get? i = some c)
    (ho : c.origin = some o) :
    o.relation.Mapped ∧ s.catalog.find? o.relation.target.name = some o.relation.target := by
  obtain ⟨entity, name, hget⟩ := ht.relations hc ho
  obtain ⟨pairs, hbuilt⟩ := Relation.build_ok (hs.coherent entity name o.relation hget)
  refine ⟨⟨s.catalog, pairs, ?_⟩, ?_⟩
  · rw [hbuilt.named]
    exact hbuilt.mapping
  · rw [Catalog.name_of_find? hbuilt.target]
    exact hbuilt.target

/-- The entities of a tree are those of its schema. -/
theorem entity_of_asked {i : Nat} {c : Command} (hc : t.get? i = some c) :
    s.catalog.find? c.entity.name = some c.entity := by
  cases ho : c.origin with
  | some o =>
    rw [(ht.grown.ordered.sources hc ho).1]
    exact (relation_of_asked hs ht hc ho).2
  | none =>
    have hzero := ht.grown.ordered.eq_zero hc (by rw [Command.parent, ho, Option.map_none])
    rw [hzero] at hc
    exact ht.first c hc

theorem grounded_of_asked {db : Database} (hdb : db.Regular)
    (hkeyed : ∀ {i c}, t.get? i = some c → c.entity.Keyed db) (f : Nat → ChainPolicy) :
    Grounded db (t.withPolicies f) := by
  have hplain : t.Plain := ⟨fun hc ho => (relation_of_asked hs ht hc ho).1, ht.predicates⟩
  refine ⟨(ht.grown.withPolicies f).ordered, hplain.withPolicies f, fun hc hd hname => ?_, hdb,
    fun hc => ?_⟩
  · obtain ⟨c, hc', rfl⟩ := CommandTree.get?_of_withPolicies hc
    obtain ⟨d, hd', rfl⟩ := CommandTree.get?_of_withPolicies hd
    have hfind := entity_of_asked hs ht hc'
    change c.entity.name = d.entity.name at hname
    rw [hname, entity_of_asked hs ht hd'] at hfind
    exact (Option.some.inj hfind).symm
  · obtain ⟨c, hc', rfl⟩ := CommandTree.get?_of_withPolicies hc
    have hentity := hkeyed hc'
    exact hentity

end

section
variable {db : Database} {t : CommandTree} {plan : Plan}

/-- Facts of one property are never of both kinds if the plan writes none as both. -/
theorem compatible_of_clear (ht : t.Ordered) (htree : plan.tree = t) (hclear : plan.Clear) :
    ObjectStore.Compatible fun f => ∃ i, plan.Told db t i f := by
  have hmany : ∀ i x p, plan.Told db t i (.many x p) → (x.1, p) ∈ plan.collections := by
    rintro i x p ⟨c, o, q, u, y, hc, ho, hq, -, -, hsaid | ⟨b, z, -, -, hsaid⟩⟩
    · obtain ⟨hx, hp⟩ := hsaid.about
      cases hsaid with
      | many hismany =>
        refine List.mem_filterMap.2 ⟨c, by rw [htree]; exact List.mem_of_getElem? hc, ?_⟩
        obtain ⟨-, q', hq', hname⟩ := ht.sources hc ho
        rw [hq] at hq'
        cases hq'
        rw [Command.relation, ho, Option.map_some, Option.filter_some, if_pos hismany,
          Option.map_some, ← hname]
        rfl
    · cases hsaid with
      | many hfalse => cases hfalse
  have hone : ∀ i x p z, plan.Told db t i (.one x p z) → (x.1, p) ∈ plan.singles := by
    rintro i x p z ⟨c, o, q, u, y, hc, ho, hq, -, -, hsaid | ⟨b, w, hb, -, hsaid⟩⟩
    · cases hsaid with
      | one hisone _ =>
        refine List.mem_flatMap.2 ⟨c, by rw [htree]; exact List.mem_of_getElem? hc, ?_⟩
        refine List.mem_append_left _ ?_
        obtain ⟨-, q', hq', hname⟩ := ht.sources hc ho
        rw [hq] at hq'
        cases hq'
        rw [Command.relation, ho, Option.map_some, Option.filter_some,
          if_pos (by rw [hisone]; rfl), Option.map_some, Option.toList_some, List.mem_singleton,
          ← hname]
        rfl
    · cases hsaid with
      | one _ _ =>
        refine List.mem_flatMap.2 ⟨c, by rw [htree]; exact List.mem_of_getElem? hc, ?_⟩
        refine List.mem_append_right _ ?_
        rw [ht.ids hc, hb, Option.map_some, Option.toList_some, List.mem_singleton]
        rfl
  rintro x p z ⟨i, hi⟩ ⟨j, hj⟩
  exact hclear.properties _ (hone j x p z hj) (hmany i x p hi)

/-- A plan of a tree over a database, made with left joins and with conflicts as errors. -/
theorem ready_of_make {cfg : Settings} {s s' : Schema} (hg : Grounded db t)
    (hjoin : cfg.join = .left) (hconflicts : cfg.conflicts = .error)
    (hmake : make t cfg s = .ok plan s') (hclear : plan.Clear) (hlabels : plan.LabelsApart) :
    plan.Ready db t := by
  obtain ⟨-, hmade⟩ := make_ok (P := fun _ => True) (fun _ _ _ _ _ _ => trivial) trivial hmake
  have hwritten : ∀ chain ∈ plan.chains, ∃ root others, t.get? chain.root = some root ∧
      chain.commands.filterMap t.get? = root :: others ∧ Written db t plan.projections
        (chain.source.bind t.get?) root (root :: others) chain.query := by
    intro chain hchain
    obtain ⟨shape, hshape, hcompile⟩ := forall₂_mem_right hmade.chains chain hchain
    rw [hjoin] at hcompile
    rw [show chain.toChainShape = shape from (compile_ok hcompile).1]
    exact compile_written hg.ordered hg.plain hshape hcompile (hclear.aliases chain hchain)
  refine ⟨hg, hmade.tree, hmade.shapes, hwritten, fun chain hchain a ha b hb heq => ?_,
    fun hc => hmade.keys hg.ordered hc, by rw [hmade.settings]; exact hconflicts,
    compatible_of_clear hg.ordered hmade.tree hclear⟩
  -- the sets of a chain have distinct aliases, so that an alias tells the set
  obtain ⟨root, others, -, hcommands, hw⟩ := hwritten chain hchain
  have hin : ∀ a ∈ plan.selected chain.toChainShape,
      a.1 ∈ (chain.source.bind t.get?).toList ++ (root :: others) := by
    intro a ha
    unfold selected at ha
    rw [hmade.tree, hcommands] at ha
    rcases List.mem_append.1 ha with ha | ha
    · obtain ⟨p, hp, ha⟩ := List.mem_flatMap.1 ha
      obtain ⟨field, -, rfl⟩ := List.mem_map.1 ha
      exact List.mem_append_left _ hp
    · obtain ⟨p, hp, ha⟩ := List.mem_flatMap.1 ha
      obtain ⟨field, -, rfl⟩ := List.mem_map.1 ha
      exact List.mem_append_right _ hp
  have halias := hlabels chain hchain a ha b hb heq
  have hset := List.inj_on_of_nodup_map hw.distinct (hin a ha) (hin b hb) halias
  rw [hset] at heq
  have hfield := congrArg (labelledField? b.1.aliasName) heq
  rw [labelledField?_label, labelledField?_label] at hfield
  exact Prod.ext hset (Option.some.inj hfield)

end

/-! ## Policies play no part -/

section
variable {t : CommandTree} {db : Database} {plan plan' : Plan} {f g : Nat → ChainPolicy}

theorem told_withPolicies {i : Nat} {x : Fact} :
    plan.Told db (t.withPolicies f) i x ↔ plan.Told db t i x := by
  constructor
  · rintro ⟨c, o, p, u, y, hc, ho, hp, hu, hlinked, hsays⟩
    obtain ⟨d, hd, rfl⟩ := CommandTree.get?_of_withPolicies hc
    obtain ⟨e, he, rfl⟩ := CommandTree.get?_of_withPolicies hp
    exact ⟨d, o, e, u, y, hd, ho, he, CommandTree.reach_withPolicies.1 hu, hlinked, hsays⟩
  · rintro ⟨c, o, p, u, y, hc, ho, hp, hu, hlinked, hsays⟩
    exact ⟨_, o, _, u, y, CommandTree.get?_withPolicies_some hc, ho,
      CommandTree.get?_withPolicies_some hp, CommandTree.reach_withPolicies.2 hu, hlinked, hsays⟩

theorem told_congr (h : ∀ i, plan.reverse? i = plan'.reverse? i) {i : Nat} {x : Fact} :
    plan.Told db t i x ↔ plan'.Told db t i x := by
  unfold Told Says
  simp only [h]

/-- The ways back of a plan do not depend on the policies of its tree. -/
theorem reverse?_withPolicies {cfg : Settings} {s s₁ s₂ : Schema}
    (h : make (t.withPolicies f) cfg s = .ok plan s₁)
    (h' : make (t.withPolicies g) cfg s = .ok plan' s₂) (i : Nat) :
    plan.reverse? i = plan'.reverse? i := by
  have hsame : ∀ f : Nat → ChainPolicy, (t.withPolicies f).commands.mapM resolveCommand =
      t.commands.mapM resolveCommand := fun f => List.mapM_map ..
  obtain ⟨resolved, r₁, hresolved, -, hreverses⟩ := make_resolved h
  obtain ⟨resolved', r₂, hresolved', -, hreverses'⟩ := make_resolved h'
  rw [hsame] at hresolved hresolved'
  rw [hresolved] at hresolved'
  cases hresolved'
  unfold reverse?
  rw [hreverses, hreverses']

end

end Plan

namespace Run

variable {db : Database} {t : CommandTree} {f : Nat → ChainPolicy} {F : Fact → Prop} {run : Run}

theorem Progress.found_iff (h : Progress db (t.withPolicies f) (· < t.size) F run) {i : Nat}
    {c : Command} (hc : t.get? i = some c) (x : Identity) :
    (∃ k ∈ run.setOf i, run.store.identity? k = some x) ↔
      ∃ u, Reach db t i u ∧ c.entity.identityOf u = x := by
  rw [h.found i (CommandTree.get?_lt hc) _ (CommandTree.get?_withPolicies_some hc) x]
  simp only [CommandTree.reach_withPolicies]
  rfl

/-- At the end of a run its objects are those of all rows that the tree reaches. -/
theorem Progress.object_iff (h : Progress db (t.withPolicies f) (· < t.size) F run) (x : Identity) :
    (∃ k, run.store.identity? k = some x) ↔ Known db t x := by
  constructor
  · rintro ⟨k, hk⟩
    obtain ⟨i, c, u, hc, hu, rfl⟩ := h.known k x hk
    obtain ⟨d, hd, rfl⟩ := CommandTree.get?_of_withPolicies hc
    exact ⟨i, d, u, hd, CommandTree.reach_withPolicies.1 hu, rfl⟩
  · rintro ⟨i, c, u, hc, hu, rfl⟩
    obtain ⟨k, -, hk⟩ := (h.found_iff hc _).2 ⟨u, hu, rfl⟩
    exact ⟨k, hk⟩

theorem resultSets_same {f g : Nat → ChainPolicy} {F G : Fact → Prop} {run run' : Run}
    (h : Progress db (t.withPolicies f) (· < t.size) F run)
    (h' : Progress db (t.withPolicies g) (· < t.size) G run') :
    List.Forall₂ (fun x y : ResultSet => x.aliasName = y.aliasName ∧ x.entity = y.entity ∧
      ∀ z, (∃ i ∈ x.objects, run.store.identity? i = some z) ↔
        ∃ j ∈ y.objects, run'.store.identity? j = some z)
      (resultSets (t.withPolicies f) run.sets) (resultSets (t.withPolicies g) run'.sets) := by
  have hlength : ∀ {f : Nat → ChainPolicy} {F : Fact → Prop} {run : Run},
      Progress db (t.withPolicies f) (· < t.size) F run →
      (resultSets (t.withPolicies f) run.sets).length = t.size := by
    intro f F run h
    have hsize := CommandTree.size_withPolicies t f
    have hsets := h.length
    unfold resultSets CommandTree.size at *
    rw [List.length_map, List.length_zip, hsets, hsize, Nat.min_self]
  have hmember : ∀ {f : Nat → ChainPolicy} {F : Fact → Prop} {run : Run},
      Progress db (t.withPolicies f) (· < t.size) F run → ∀ {k : Nat} {x : ResultSet},
      (resultSets (t.withPolicies f) run.sets)[k]? = some x → ∃ c, t.get? k = some c ∧
        x.aliasName = c.aliasName ∧ x.entity = c.entity.name ∧ x.objects = run.setOf k := by
    intro f F run h k x hx
    unfold resultSets at hx
    rw [List.getElem?_map] at hx
    obtain ⟨⟨c, ids⟩, hzip, rfl⟩ := Option.map_eq_some_iff.1 hx
    obtain ⟨hc, hids⟩ := List.getElem?_zip_eq_some.1 hzip
    obtain ⟨d, hd, rfl⟩ := CommandTree.get?_of_withPolicies hc
    refine ⟨d, hd, rfl, rfl, ?_⟩
    unfold setOf
    rw [hids]
    rfl
  refine List.forall₂_iff_get.2 ⟨(hlength h).trans (hlength h').symm, fun k hk hk' => ?_⟩
  obtain ⟨c, hc, halias, hentity, hobjects⟩ := hmember h (List.getElem?_eq_getElem hk)
  obtain ⟨d, hd, halias', hentity', hobjects'⟩ := hmember h' (List.getElem?_eq_getElem hk')
  rw [hc] at hd
  cases hd
  rw [List.get_eq_getElem, List.get_eq_getElem]
  refine ⟨halias.trans halias'.symm, hentity.trans hentity'.symm, fun z => ?_⟩
  rw [hobjects, hobjects', h.found_iff hc, h'.found_iff hc]

end Run

namespace Plan

/-- Splitting a load does not change what is loaded: under any two assignments of policies to the sets
of a tree, two runs over one database that come to their ends hold the same. -/
theorem policies_agree {t : CommandTree} {s s₁ s₂ : Schema} {cfg : Settings} {db : Database}
    {f g : Nat → ChainPolicy} {plan₁ plan₂ : Plan} {executor₁ executor₂ : Executor}
    {out₁ out₂ : Output} (hs : s.Reachable) (ht : t.Asked s) (hjoin : cfg.join = .left)
    (hconflicts : cfg.conflicts = .error) (hdb : db.Regular)
    (hkeyed : ∀ {i c}, t.get? i = some c → c.entity.Keyed db)
    (hmake₁ : make (t.withPolicies f) cfg s = .ok plan₁ s₁)
    (hmake₂ : make (t.withPolicies g) cfg s = .ok plan₂ s₂)
    (hclear₁ : plan₁.Clear) (hclear₂ : plan₂.Clear) (hlabels₁ : plan₁.LabelsApart)
    (hlabels₂ : plan₂.LabelsApart) (hserves₁ : plan₁.Serves db executor₁)
    (hserves₂ : plan₂.Serves db executor₂) (hout₁ : (plan₁.execute executor₁).result = .ok out₁)
    (hout₂ : (plan₂.execute executor₂).result = .ok out₂) : out₁.SameLoad out₂ := by
  have hends : ∀ {f : Nat → ChainPolicy} {plan : Plan} {s' : Schema} {executor : Executor}
      {out : Output}, make (t.withPolicies f) cfg s = .ok plan s' → plan.Clear → plan.LabelsApart →
      plan.Serves db executor → (plan.execute executor).result = .ok out →
      ∃ run, out.store = run.store ∧ out.sets = Run.resultSets (t.withPolicies f) run.sets ∧
        Run.Progress db (t.withPolicies f) (· < t.size) (fun x => ∃ i, plan.Told db t i x) run := by
    intro f plan s' executor out hmake hclear hlabels hserves hout
    have hready := ready_of_make (grounded_of_asked hs ht hdb hkeyed f) hjoin hconflicts hmake hclear
      hlabels
    obtain ⟨run, hrun, hstore, hsets⟩ := Run.execute_ok hout
    rw [hready.tree] at hsets
    refine ⟨run, hstore, hsets, (Run.run_progress hready hserves hrun).congr (fun j => ?_) fun x => ?_⟩
    · rw [CommandTree.size_withPolicies]
    · simp only [told_withPolicies]
  obtain ⟨run₁, hstore₁, hsets₁, h₁⟩ := hends hmake₁ hclear₁ hlabels₁ hserves₁ hout₁
  obtain ⟨run₂, hstore₂, hsets₂, h₂⟩ := hends hmake₂ hclear₂ hlabels₂ hserves₂ hout₂
  -- what is told refers to a plan only by its ways back, which both plans share
  have hfacts : ∀ x, (∃ i, plan₂.Told db t i x) ↔ ∃ i, plan₁.Told db t i x := fun x =>
    exists_congr fun i => told_congr fun j => reverse?_withPolicies hmake₂ hmake₁ j
  constructor
  case sets =>
    rw [hsets₁, hsets₂, hstore₁, hstore₂]
    exact Run.resultSets_same h₁ h₂
  case objects =>
    intro z
    rw [hstore₁, hstore₂, h₁.object_iff, h₂.object_iff]
  case properties =>
    intro i j z hi hj p
    rw [hstore₁] at hi ⊢
    rw [hstore₂] at hj ⊢
    exact (h₁.shows.iff hfacts).same h₂.shows h₁.wf.store h₂.wf.store hi hj p

/-! ## Authors and their books, and two fields of one label -/

/-- The tree of a set and one loaded from it, with the schema after resolving the relationship. -/
def pair? (schema : Schema) (root : Entity) (name : String) : Option (CommandTree × Schema) :=
  match Schema.relation root.name name schema with
  | .ok r s => some ((CommandTree.start 1 root).push r.target (some ⟨0, r⟩), s)
  | .error .. => none

theorem pair?_some {schema s : Schema} {root : Entity} {name : String} {t : CommandTree}
    (hs : schema.Reachable) (hroot : schema.catalog.find? root.name = some root)
    (h : pair? schema root name = some (t, s)) : s.Reachable ∧ t.Asked s := by
  unfold pair? at h
  split at h
  · rename_i r s' hr
    cases h
    obtain ⟨hres, hget⟩ := Schema.relation_ok hr
    have hreach : s.Reachable := .relation hs hr
    obtain ⟨pairs, hbuilt⟩ := Relation.build_ok (hreach.coherent _ _ r hget)
    have hsource : r.source = root := by
      have hfind := hbuilt.source
      rw [hres.catalog, hroot] at hfind
      exact (Option.some.inj hfind).symm
    have hstart : ∀ {i c}, (CommandTree.start 1 root).get? i = some c →
        i = 0 ∧ c.entity = root ∧ c.origin = none ∧ c.modifiers = {} := by
      intro i c hc
      have hlt := CommandTree.get?_lt hc
      have hzero : i = 0 := Nat.lt_one_iff.1 hlt
      subst hzero
      cases hc
      exact ⟨rfl, rfl, rfl, rfl⟩
    have hcommand : ∀ {i c}, ((CommandTree.start 1 root).push r.target (some ⟨0, r⟩)).get? i = some c →
        c.modifiers = {} ∧ ((i = 0 ∧ c.entity = root ∧ c.origin = none) ∨
          (i = 1 ∧ c.origin = some ⟨0, r⟩)) := by
      intro i c hc
      rcases CommandTree.get?_push_some hc with ⟨rfl, rfl⟩ | ⟨-, d, hd, rfl⟩
      · exact ⟨rfl, .inr ⟨rfl, rfl⟩⟩
      · obtain ⟨rfl, hentity, horigin, hmodifiers⟩ := hstart hd
        refine ⟨?_, .inl ⟨rfl, ?_, ?_⟩⟩
        · rw [← hmodifiers]
          unfold CommandTree.grownBy
          split <;> rfl
        · rw [CommandTree.grownBy_entity, hentity]
        · rw [CommandTree.grownBy_origin, horigin]
    refine ⟨hreach, grown_push (.start 1 root) 0 r (by rw [hsource]; rfl), fun c hc => ?_,
      fun {i c o} hc ho => ?_, fun hc => ?_, fun hc _ => ?_⟩
    · obtain ⟨-, ⟨-, hentity, -⟩ | ⟨hone, -⟩⟩ := hcommand hc
      · rw [hentity, hres.catalog]
        exact hroot
      · cases hone
    · obtain ⟨-, ⟨-, -, hnone⟩ | ⟨-, hsome⟩⟩ := hcommand hc
      · rw [hnone] at ho
        cases ho
      · rw [hsome] at ho
        cases ho
        exact ⟨_, _, hget⟩
    · unfold Command.isPaginated
      rw [(hcommand hc).1]
      rfl
    · rw [(hcommand hc).1]
  · cases h

/-- A plan and what it loads over a database, if it is made and runs to its end. -/
def served? (t : CommandTree) (s : Schema) (db : Database) : Option (Plan × Output) :=
  match make t { conflicts := .error } s with
  | .ok plan _ => (plan.execute (plan.server db)).result.toOption.map fun out => (plan, out)
  | .error .. => none

theorem served?_some {t : CommandTree} {s : Schema} {db : Database} {plan : Plan} {out : Output}
    (h : served? t s db = some (plan, out)) :
    ∃ s', make t { conflicts := .error } s = .ok plan s' ∧
      (plan.execute (plan.server db)).result = .ok out := by
  unfold served? at h
  split at h
  · rename_i plan' s' hmake
    obtain ⟨out', hresult, heq⟩ := Option.map_eq_some_iff.1 h
    cases heq
    exact ⟨s', hmake, except_toOption_some hresult⟩
  · cases h

end Plan

/-- The row of a list of columns with their values. -/
def Sql.Tuple.ofList (cells : List (String × Value)) : Tuple :=
  fun column => (OrderedMap.lookup column cells).getD .null

/-- The database of some tables, each with its rows. -/
def Sql.Database.ofRows (tables : List (String × List (List (String × Value)))) : Database where
  tuples
    | .named name => ((OrderedMap.lookup name tables).getD []).map Tuple.ofList
    | .verbatim _ => []
  compare _ _ _ := false
  verbatim _ _ := .null

theorem Sql.Database.regular_ofRows {tables : List (String × List (List (String × Value)))}
    (h : ∀ table ∈ tables, ∀ row ∈ table.2, ∀ cell ∈ row, cell.2.Regular) :
    (ofRows tables).Regular := by
  intro table u hu column
  cases table with
  | verbatim text => cases hu
  | named name =>
    obtain ⟨row, hrow, rfl⟩ := List.mem_map.1 hu
    cases htable : OrderedMap.lookup name tables with
    | none => rw [htable] at hrow; cases hrow
    | some rows =>
      rw [htable] at hrow
      unfold Tuple.ofList
      cases hcell : OrderedMap.lookup column row with
      | none => rfl
      | some v =>
        exact h _ (OrderedMap.mem_of_lookup htable) row hrow _ (OrderedMap.mem_of_lookup hcell)

/-- Rows whose keys are pairwise different are told apart by them. -/
theorem Entity.keyed_of_pairwise {e : Entity} {db : Database}
    (hpresent : ∀ u ∈ db.tuples (.named e.table), ∀ v ∈ (e.keyOf u).parts, v.isNull = false)
    (hunique : (db.tuples (.named e.table)).Pairwise
      fun u v => (e.keyOf u).sameAs (e.keyOf v) = false) : e.Keyed db := by
  have hforth : (db.tuples (.named e.table)).Pairwise
      fun u v => (e.keyOf u).sameAs (e.keyOf v) = true → u = v := by
    refine hunique.imp fun hdiffer hsame => ?_
    rw [hdiffer] at hsame
    cases hsame
  have hback : (db.tuples (.named e.table)).Pairwise
      (flip fun u v => (e.keyOf u).sameAs (e.keyOf v) = true → u = v) := by
    refine hunique.imp fun hdiffer hsame => ?_
    rw [Key.sameAs_comm, hdiffer] at hsame
    cases hsame
  exact ⟨hpresent, fun u hu v hv => hforth.forall_of_forall_of_flip (fun _ _ _ => rfl) hback hu hv⟩

namespace Plan

/-- Two authors, the second of whom has written nothing, and two books of the first. -/
def catalogue : Database := .ofRows
  [("author", [[("id", .int 1), ("name", .str "Ann")], [("id", .int 2), ("name", .str "Bo")]]),
    ("book", [[("id", .int 7), ("author_id", .int 1)], [("id", .int 8), ("author_id", .int 1)]])]

/-- Whether the entities of a tree have the keys that a database needs. -/
def keyedIn (t : CommandTree) (db : Database) : Bool :=
  t.commands.all fun c => decide ((∀ u ∈ db.tuples (.named c.entity.table),
      ∀ v ∈ (c.entity.keyOf u).parts, v.isNull = false) ∧
    (db.tuples (.named c.entity.table)).Pairwise
      fun u v => (c.entity.keyOf u).sameAs (c.entity.keyOf v) = false)

theorem keyed_of_keyedIn {t : CommandTree} {db : Database} (h : keyedIn t db = true) {i : Nat}
    {c : Command} (hc : t.get? i = some c) : c.entity.Keyed db := by
  have hmem := List.all_eq_true.1 h c (List.mem_of_getElem? hc)
  obtain ⟨hpresent, hunique⟩ := of_decide_eq_true hmem
  exact Entity.keyed_of_pairwise hpresent hunique

/-- The schema of authors and books. -/
def shelves : Schema := .ofLists [author, book] []

/-- Whether a plan that runs to its end has so many chains, and is one whose loads can be compared. -/
def comparable (chains : Nat) (p : Plan × Output) : Bool :=
  decide (p.1.chains.length = chains) && decide p.1.Clear && decide p.1.LabelsApart

theorem of_comparable {chains : Nat} {p : Plan × Output} (h : comparable chains p = true) :
    p.1.chains.length = chains ∧ p.1.Clear ∧ p.1.LabelsApart := by
  unfold comparable at h
  rw [Bool.and_eq_true, Bool.and_eq_true] at h
  exact ⟨of_decide_eq_true h.1.1, of_decide_eq_true h.1.2, of_decide_eq_true h.2⟩

/-- Authors and their books load the same by one statement and by two. -/
theorem policies_agree_library : ∃ (t : CommandTree) (s : Schema) (plan₁ : Plan) (s₁ : Schema)
    (out₁ : Output) (plan₂ : Plan) (s₂ : Schema) (out₂ : Output),
    make (t.withPolicies fun _ => .auto) { conflicts := .error } s = .ok plan₁ s₁ ∧
      make (t.withPolicies fun _ => .slave) { conflicts := .error } s = .ok plan₂ s₂ ∧
      plan₁.chains.length = 2 ∧ plan₂.chains.length = 1 ∧
      (plan₁.execute (plan₁.server catalogue)).result = .ok out₁ ∧
      (plan₂.execute (plan₂.server catalogue)).result = .ok out₂ ∧ out₁.SameLoad out₂ := by
  have hall : ((pair? shelves author "BOOKS").any fun p => keyedIn p.1 catalogue &&
      (served? (p.1.withPolicies fun _ => .auto) p.2 catalogue).any (comparable 2) &&
      (served? (p.1.withPolicies fun _ => .slave) p.2 catalogue).any (comparable 1)) = true := by
    decide +kernel
  obtain ⟨⟨t, s⟩, hpair, hall⟩ := (Option.any_eq_true _ _).1 hall
  rw [Bool.and_eq_true, Bool.and_eq_true] at hall
  obtain ⟨⟨hkeyed, hsplit⟩, hfused⟩ := hall
  obtain ⟨⟨plan₁, out₁⟩, hserved₁, hcomparable₁⟩ := (Option.any_eq_true _ _).1 hsplit
  obtain ⟨⟨plan₂, out₂⟩, hserved₂, hcomparable₂⟩ := (Option.any_eq_true _ _).1 hfused
  obtain ⟨s₁, hmake₁, hout₁⟩ := served?_some hserved₁
  obtain ⟨s₂, hmake₂, hout₂⟩ := served?_some hserved₂
  obtain ⟨hchains₁, hclear₁, hlabels₁⟩ := of_comparable hcomparable₁
  obtain ⟨hchains₂, hclear₂, hlabels₂⟩ := of_comparable hcomparable₂
  obtain ⟨hs, ht⟩ := pair?_some (.ofLists [author, book] []) (by decide +kernel) hpair
  refine ⟨t, s, plan₁, s₁, out₁, plan₂, s₂, out₂, hmake₁, hmake₂, hchains₁, hchains₂, hout₁, hout₂, ?_⟩
  exact policies_agree hs ht rfl rfl (Database.regular_ofRows (by decide +kernel))
    (fun hc => keyed_of_keyedIn hkeyed hc) hmake₁ hmake₂ hclear₁ hclear₂ hlabels₁ hlabels₂
    (plan₁.serves_server catalogue) (plan₂.serves_server catalogue) hout₁ hout₂

/-- Crates, with a field that shares its label with the keys of the boxes in them. -/
def crate : Entity where
  name := "A"
  table := "crate"
  columns := .ofList [("id", "id"), ("B2:id", "mark")]
  primaryKey := ["id"]
  foreignKeys := .empty
  primaryKey_ne_nil := Entity.single_ne_nil "id"
  primaryKey_declared := by decide
  foreignKeys_declared := by decide

/-- Boxes, each in a crate. -/
def box : Entity where
  name := "A1:B"
  table := "box"
  columns := .ofList [("id", "id"), ("a_id", "a_id")]
  primaryKey := ["id"]
  foreignKeys := .empty
  primaryKey_ne_nil := Entity.single_ne_nil "id"
  primaryKey_declared := by decide
  foreignKeys_declared := by decide

/-- One crate with one box. -/
def warehouse : Database := .ofRows
  [("crate", [[("id", .int 1), ("mark", .int 5)]]), ("box", [[("id", .int 7), ("a_id", .int 1)]])]

/-- Whether an object was loaded under an integer. -/
def knows (n : Int64) (out : Output) : Bool :=
  out.store.records.any fun r => r.key.parts.map Value.asInt = [some n]

theorem knows_of_same {out₁ out₂ : Output} (h : out₁.SameLoad out₂) {n : Int64}
    (hn : knows n out₁ = true) : knows n out₂ = true := by
  obtain ⟨r, hr, hkey⟩ := List.any_eq_true.1 hn
  obtain ⟨i, hi⟩ := List.getElem?_of_mem hr
  obtain ⟨j, hj⟩ := (h.objects (r.entity, r.key)).1 ⟨i, ObjectStore.identity?_eq_some.2 ⟨r, hi, rfl⟩⟩
  obtain ⟨r', hr', heq⟩ := ObjectStore.identity?_eq_some.1 hj
  refine List.any_eq_true.2 ⟨r', List.mem_of_getElem? hr', ?_⟩
  rw [(Prod.mk.inj heq).2]
  exact hkey

/-- Where fields of two sets share a label, a statement that loads both sets selects only the first of
them: boxes are then known by the marks of their crates. -/
theorem shared_label_splits : ¬ ∀ (t : CommandTree) (s s₁ s₂ : Schema) (cfg : Settings)
    (db : Database) (f g : Nat → ChainPolicy) (plan₁ plan₂ : Plan) (executor₁ executor₂ : Executor)
    (out₁ out₂ : Output), s.Reachable → t.Asked s → cfg.join = .left → cfg.conflicts = .error →
    db.Regular → (∀ {i c}, t.get? i = some c → c.entity.Keyed db) →
    make (t.withPolicies f) cfg s = .ok plan₁ s₁ → make (t.withPolicies g) cfg s = .ok plan₂ s₂ →
    plan₁.Clear → plan₂.Clear → plan₁.Serves db executor₁ → plan₂.Serves db executor₂ →
    (plan₁.execute executor₁).result = .ok out₁ → (plan₂.execute executor₂).result = .ok out₂ →
    out₁.SameLoad out₂ := by
  intro h
  have hall : ((pair? (.ofLists [crate, box] []) crate "A1:BS").any fun p => keyedIn p.1 warehouse &&
      (served? (p.1.withPolicies fun _ => .auto) p.2 warehouse).any
        (fun q => decide q.1.Clear && knows 7 q.2) &&
      (served? (p.1.withPolicies fun _ => .slave) p.2 warehouse).any
        (fun q => decide q.1.Clear && !knows 7 q.2)) = true := by
    decide +kernel
  obtain ⟨⟨t, s⟩, hpair, hall⟩ := (Option.any_eq_true _ _).1 hall
  rw [Bool.and_eq_true, Bool.and_eq_true] at hall
  obtain ⟨⟨hkeyed, hsplit⟩, hfused⟩ := hall
  obtain ⟨⟨plan₁, out₁⟩, hserved₁, hfacts₁⟩ := (Option.any_eq_true _ _).1 hsplit
  obtain ⟨⟨plan₂, out₂⟩, hserved₂, hfacts₂⟩ := (Option.any_eq_true _ _).1 hfused
  rw [Bool.and_eq_true] at hfacts₁ hfacts₂
  obtain ⟨s₁, hmake₁, hout₁⟩ := served?_some hserved₁
  obtain ⟨s₂, hmake₂, hout₂⟩ := served?_some hserved₂
  obtain ⟨hs, ht⟩ := pair?_some (.ofLists [crate, box] []) (by decide +kernel) hpair
  have hsame := h t s s₁ s₂ _ warehouse _ _ plan₁ plan₂ _ _ out₁ out₂ hs ht rfl rfl
    (Database.regular_ofRows (by decide +kernel)) (fun hc => keyed_of_keyedIn hkeyed hc) hmake₁ hmake₂
    (of_decide_eq_true hfacts₁.1) (of_decide_eq_true hfacts₂.1) (plan₁.serves_server warehouse)
    (plan₂.serves_server warehouse) hout₁ hout₂
  have hknows := knows_of_same hsame hfacts₁.2
  rw [hknows] at hfacts₂
  cases hfacts₂.2

end Plan

end GraphLoad
