/-
The footprint of a chain. Hydrating the rows of a chain changes the sets of its own commands and no
others, and keeps every object with what was loaded of it. The set of a command lists objects of the
rows that it was filled from, each under a key that is not null and has a value for every key field.
-/
import GraphLoad.Proofs.Object.Retention
import GraphLoad.Proofs.Plan.Placement
import GraphLoad.Proofs.Run.Filling
import GraphLoad.Proofs.Run.Serving

namespace GraphLoad

open ObjectStore (Retains)

/-! ## Keys -/

theorem Value.isNull_eq_of_sameAs {v w : Value} (h : v.sameAs w = true) : v.isNull = w.isNull := by
  cases v <;> cases w <;> first | rfl | (simp [sameAs] at h)

theorem Value.sameAll_parts {vs ws : List Value} (h : sameAll vs ws = true) :
    vs.length = ws.length ∧ vs.all isNull = ws.all isNull := by
  induction vs generalizing ws with
  | nil =>
    cases ws with
    | nil => exact ⟨rfl, rfl⟩
    | cons w ws => cases h
  | cons v vs ih =>
    cases ws with
    | nil => cases h
    | cons w ws =>
      rw [sameAll, Bool.and_eq_true] at h
      obtain ⟨hlength, hall⟩ := ih h.2
      exact ⟨by rw [List.length_cons, List.length_cons, hlength],
        by rw [List.all_cons, List.all_cons, isNull_eq_of_sameAs h.1, hall]⟩

namespace ObjectStore

variable {s s' : ObjectStore} {e : Entity} {i : Nat}

/-- An object whose key has a value for every key field of an entity, not all of them null. -/
def KeyedFor (s : ObjectStore) (e : Entity) (i : Nat) : Prop :=
  ∃ a, s.get? i = some a ∧ a.key.parts.length = e.primaryKey.length ∧ a.key.isNull = false

theorem KeyedFor.extends (h : s.KeyedFor e i) (hext : s.Extends s') : s'.KeyedFor e i := by
  obtain ⟨a, ha, hlength, hnull⟩ := h
  obtain ⟨b, hb, -, hkey⟩ := hext i a ha
  exact ⟨b, hb, by rw [hkey, hlength], by rw [hkey, hnull]⟩

/-- The object that a key finds, or that is made for it, has as many key parts, not all null. -/
theorem load_keyed {key : Key} {values : List (String × Value)}
    (h : s.load e.name key values = (i, s')) (hlength : key.parts.length = e.primaryKey.length)
    (hnull : key.isNull = false) : s'.KeyedFor e i := by
  have hid : (s.load e.name key values).1 = i := congrArg Prod.fst h
  obtain rfl : (s.load e.name key values).2 = s' := congrArg Prod.snd h
  obtain ⟨a, ha, -, heq | hmeets⟩ := s.loaded_load e.name key values
  · exact ⟨a, hid ▸ ha, by rw [heq, hlength], by rw [heq, hnull]⟩
  · obtain ⟨hparts, hall⟩ := Value.sameAll_parts (Key.meets_iff.1 hmeets).1
    exact ⟨a, hid ▸ ha, hparts.trans hlength, hall.trans hnull⟩

end ObjectStore

namespace Entity

variable {e : Entity} {aliasName : String} {rows rows' : List Row} {s s' : ObjectStore}
  {ids : List Nat}

/-- Loading an alias keeps the objects and what was loaded of them, also when a row has no key. -/
theorem loadRows_retains (e : Entity) (aliasName : String) (rows : List Row) (s : ObjectStore) :
    s.Retains (e.loadRows aliasName rows s).store := by
  induction rows generalizing s with
  | nil => exact .refl s
  | cons row rows ih =>
    unfold loadRows
    split
    · exact .refl s
    · split
      · exact ih s
      · cases hload : s.load e.name _ (e.rowValues row aliasName) with
        | mk id s₁ =>
          have hfirst : s.Retains s₁ := ⟨(ObjectStore.load_grows hload).1, fun i p hp => by
            rwa [ObjectStore.related?_load hload]⟩
          exact hfirst.trans (ih s₁)

/-- The objects of an alias stand in its rows, each under a key of its entity. -/
theorem LoadSteps.lists (h : e.LoadSteps aliasName rows s rows' s' ids) : ∀ i ∈ ids,
    (∃ row ∈ rows', row.object aliasName = .ok (some i)) ∧ s'.KeyedFor e i := by
  induction h with
  | nil => exact fun i hi => nomatch hi
  | null _ _ _ ih =>
    intro i hi
    obtain ⟨⟨row', hrow', hobject⟩, hkeyed⟩ := ih i hi
    exact ⟨⟨row', List.mem_cons_of_mem _ hrow', hobject⟩, hkeyed⟩
  | keyed hkey hnull hload hsteps ih =>
    intro i hi
    rcases List.mem_cons.1 hi with rfl | hi
    · -- a row's own object stands in it, and keeps its key while the others are loaded
      have hkeyed := ObjectStore.load_keyed hload (rowKey_ok hkey).length_eq.symm hnull
      exact ⟨⟨_, List.mem_cons_self .., Row.object_setObject ..⟩, hkeyed.extends hsteps.fills.grows⟩
    · obtain ⟨⟨row', hrow', hobject⟩, hkeyed⟩ := ih i hi
      exact ⟨⟨row', List.mem_cons_of_mem _ hrow', hobject⟩, hkeyed⟩

end Entity

namespace Run

variable {plan : Plan} {chain : Chain} {t : CommandTree} {rows rows' : List Row}
  {run run' run₁ run₂ run₃ : Run} {ids : List Nat}

/-! ## What hydration changes -/

/-- How a run has moved on: its objects are there with all that was loaded of them, and no sets but
those of `ids` have changed. -/
structure Onward (ids : List Nat) (run run' : Run) : Prop where
  retains : run.store.Retains run'.store
  sets : ∀ id, id ∉ ids → run'.setOf id = run.setOf id
  count : run'.sets.length = run.sets.length

theorem Onward.refl (ids : List Nat) (run : Run) : Onward ids run run :=
  ⟨.refl _, fun _ _ => rfl, rfl⟩

theorem Onward.mono {ids' : List Nat} (h : Onward ids run run') (hids : ids ⊆ ids') :
    Onward ids' run run' :=
  ⟨h.retains, fun id hid => h.sets id fun hmem => hid (hids hmem), h.count⟩

theorem Onward.trans (h : Onward ids run₁ run₂) (h' : Onward ids run₂ run₃) :
    Onward ids run₁ run₃ :=
  ⟨h.retains.trans h'.retains, fun id hid => (h'.sets id hid).trans (h.sets id hid),
    h'.count.trans h.count⟩

/-- A run whose objects have changed and whose sets have not. -/
theorem Onward.of_sets (h : run.store.Retains run'.store) (hsets : run'.sets = run.sets) :
    Onward ids run run' :=
  ⟨h, fun id _ => by rw [setOf, hsets, ← setOf], by rw [hsets]⟩

theorem loadAlias_onward {e : Entity} {aliasName : String} :
    Moves (fun run run' => Onward ids run run' ∧ run'.sets = run.sets) (loadAlias e aliasName rows) := by
  intro run
  have hretains := e.loadRows_retains aliasName rows run.store
  unfold loadAlias
  dsimp only
  split <;> exact ⟨.of_sets hretains rfl, rfl⟩

theorem loadSource_onward : Moves (Onward ids) (loadSource plan chain rows) := by
  unfold loadSource
  split
  · exact Moves.pure (Onward.refl ids) _
  · refine Moves.bind .trans (fun run => ?_) fun _ => Moves.pure (Onward.refl ids) _
    exact (loadAlias_onward run).imp (fun _ _ h => h.1) fun _ _ h => h.1

theorem loadSet_onward {c : Command} (hc : c.id ∈ ids) : Moves (Onward ids) (loadSet rows c) := by
  refine Moves.bind .trans (fun run => ?_) fun loaded => ?_
  · exact (loadAlias_onward run).imp (fun _ _ h => h.1) fun _ _ h => h.1
  · refine Moves.bind .trans (fun run => ?_) fun _ => Moves.pure (Onward.refl ids) _
    refine ⟨.refl _, fun id hid => ?_, List.length_set ..⟩
    have hne : ¬(c.id = id ∧ id < run.sets.length) := fun heq => hid (heq.1 ▸ hc)
    rw [setOf_set run run.store, if_neg hne]

theorem loadSets_onward {commands : List Command} (hids : ∀ c ∈ commands, c.id ∈ ids) :
    Moves (Onward ids) (commands.foldlM loadSet rows) :=
  Moves.foldlM (Onward.refl ids) .trans (fun _ c hc => loadSet_onward (hids c hc)) rows

theorem linkSet_onward {c : Command} : Moves (Onward ids) (linkSet plan rows c) := by
  unfold linkSet
  split
  · exact Moves.pure (Onward.refl ids) _
  · split
    · exact Moves.pure (Onward.refl ids) _
    · intro run
      unfold linking
      split
      · rename_i hl
        exact .of_sets (Relation.link_retains.ok hl) rfl
      · rename_i hl
        exact .of_sets ((Relation.link_retains _).error hl) rfl

theorem linkSets_onward {commands : List Command} :
    Moves (Onward ids) (commands.forM (linkSet plan rows)) :=
  Moves.forM (Onward.refl ids) .trans fun _ _ => linkSet_onward

theorem initSource_onward : Moves (Onward ids) (initSource plan chain) := by
  intro run
  obtain ⟨run', hinit⟩ := initSource_total plan chain run
  rw [hinit]
  rcases initSource_ok hinit with ⟨rfl, -⟩ | ⟨source, r, -, -, -, rfl⟩
  · exact .refl ..
  · exact .of_sets (ObjectStore.retains_initMany ..).1 rfl

/-- The commands of a chain are numbered by it. -/
theorem id_mem_of_command (ht : t.Ordered) {c : Command} {shape : ChainShape}
    (hc : c ∈ shape.commands.filterMap t.get?) : t.get? c.id = some c ∧ c.id ∈ shape.commands := by
  obtain ⟨id, hid, hget⟩ := List.mem_filterMap.1 hc
  rw [ht.ids hget]
  exact ⟨hget, hid⟩

theorem fill_onward (ht : t.Ordered) (htree : plan.tree = t) :
    Moves (Onward chain.commands) (fill plan chain rows) := by
  subst htree
  exact Moves.bind .trans loadSource_onward fun _ =>
    loadSets_onward fun c hc => (id_mem_of_command ht hc).2

theorem connect_onward : Moves (Onward ids) (connect plan chain rows) :=
  Moves.bind .trans linkSets_onward fun _ => initSource_onward

/-- Hydrating a chain changes the sets of its commands only, and unloads nothing. -/
theorem hydrate_onward (ht : t.Ordered) (htree : plan.tree = t) :
    Moves (Onward chain.commands) (hydrate plan chain rows) := by
  rw [hydrate_eq]
  exact Moves.bind .trans (fill_onward ht htree) fun _ => connect_onward

theorem runChain_onward {executor : Executor} (ht : t.Ordered) (htree : plan.tree = t)
    (h : runChain executor plan chain run = .ok ⟨⟩ run') : Onward chain.commands run run' := by
  rcases runChain_ok h with ⟨-, rfl⟩ | ⟨query, rows, -, -, hydrated⟩
  · exact .refl ..
  · have hsent : Onward chain.commands run
        { run with sent := run.sent ++ [query.build plan.settings.dialect] } :=
      .of_sets (.refl _) rfl
    exact hsent.trans ((hydrate_onward ht htree).ok hydrated)

/-- Chains that are run one after the other change the sets of their commands only. -/
theorem runChains_onward {executor : Executor} (ht : t.Ordered) (htree : plan.tree = t)
    {chains : List Chain} (h : chains.forM (runChain executor plan) run = .ok ⟨⟩ run') :
    Onward (chains.flatMap fun chain => chain.commands) run run' := by
  refine forM_builds (P := fun done r => Onward (done.flatMap fun chain => chain.commands) run r)
    ?step (.refl ..) h
  rintro pre chain post - r r' hr hran
  rw [List.flatMap_append, List.flatMap_singleton]
  exact (hr.mono (List.subset_append_left ..)).trans
    ((runChain_onward ht htree hran).mono (List.subset_append_right ..))

/-! ## What the sets list -/

/-- A run whose sets list objects under keys of their entities. -/
def Keyed (t : CommandTree) (run : Run) : Prop :=
  ∀ id c, t.get? id = some c → ∀ i ∈ run.setOf id, run.store.KeyedFor c.entity i

theorem setOf_before (t : CommandTree) (id : Nat) : (before t).setOf id = [] := by
  unfold setOf before
  rw [List.getElem?_replicate]
  split <;> rfl

theorem keyed_before (t : CommandTree) : Keyed t (before t) := by
  intro id c _ i hi
  rw [setOf_before] at hi
  cases hi

theorem Keyed.grow (h : Keyed t run) (hext : run.store.Extends run'.store)
    (hsets : run'.sets = run.sets) : Keyed t run' := by
  intro id c hc i hi
  rw [setOf, hsets, ← setOf] at hi
  exact (h id c hc i hi).extends hext

/-- Rows in which the objects of some sets stand, in a run whose sets are keyed. -/
structure Listed (t : CommandTree) (done : List Command) (rows : List Row) (run : Run) : Prop where
  keyed : Keyed t run
  stand : ∀ c ∈ done, ∀ i ∈ run.setOf c.id, ∃ row ∈ rows, row.object c.aliasName = .ok (some i)

/-- The objects of one more set come to stand in the rows beside those of the others. -/
theorem Listed.loadSet {done : List Command} {c : Command} (h : Listed t done rows run)
    (hself : ∀ d ∈ c :: done, t.get? d.id = some d) (hnew : c.aliasName ∉ done.map Command.aliasName)
    (hload : Run.loadSet rows c run = .ok rows' run') : Listed t (c :: done) rows' run' := by
  unfold Run.loadSet at hload
  obtain ⟨⟨loaded, found⟩, run₁, halias, hload⟩ := step_bind_ok hload
  obtain ⟨⟨⟩, run₂, hmodify, hload⟩ := step_bind_ok hload
  obtain ⟨rfl, rfl⟩ := step_pure_ok hload
  obtain ⟨hfills, hrun⟩ := loadAlias_fills halias
  have hset := step_modify_ok hmodify
  subst hset
  have hold : ∀ id, run₁.setOf id = run.setOf id := fun id => by rw [hrun]; rfl
  have hlists : ∀ i ∈ found, (∃ row ∈ loaded, row.object c.aliasName = .ok (some i)) ∧
      run₁.store.KeyedFor c.entity i := by
    unfold loadAlias at halias
    dsimp only at halias
    split at halias
    · rename_i objects hobjects
      cases halias
      obtain ⟨all, hall, rfl⟩ := except_map_ok hobjects
      exact fun i hi => (Entity.loadRows_steps hall).lists i (List.mem_eraseDups.1 hi)
    · cases halias
  constructor
  case keyed =>
    intro id d hd i hi
    rw [setOf_set run₁ run₁.store] at hi
    split at hi
    · rename_i heq
      have hself := hself c (List.mem_cons_self ..)
      rw [heq.1, hd] at hself
      cases hself
      exact (hlists i hi).2
    · rw [hold] at hi
      exact (h.keyed id d hd i hi).extends hfills.grows
  case stand =>
    intro d hd i hi
    rw [setOf_set run₁ run₁.store] at hi
    split at hi
    · rename_i heq
      have hcd : c = d := by
        have hself' := hself d hd
        rw [← heq.1, hself c (List.mem_cons_self ..)] at hself'
        exact Option.some.inj hself'
      rw [← hcd]
      exact (hlists i hi).1
    · rename_i hother
      rw [hold] at hi
      rcases List.mem_cons.1 hd with rfl | hd
      · -- a set beyond those of the run is empty
        have hbeyond : run.sets.length ≤ d.id := by
          by_contra hlt
          refine hother ⟨rfl, ?_⟩
          rw [hrun]
          exact Nat.lt_of_not_le hlt
        rw [setOf, List.getElem?_eq_none hbeyond] at hi
        cases hi
      · obtain ⟨row, hrow, hobject⟩ := h.stand d hd i hi
        obtain ⟨row', hrow', o, rfl, -⟩ := forall₂_mem_left hfills.slots row hrow
        have hne : d.aliasName ≠ c.aliasName := by
          intro heq
          exact hnew (heq ▸ List.mem_map_of_mem hd)
        exact ⟨_, hrow', by rw [Row.object_setObject_of_ne row hne]; exact hobject⟩

theorem Listed.loadSets {commands : List Command} :
    ∀ {done : List Command} {rows : List Row} {run : Run}, Listed t done rows run →
      (∀ d ∈ commands.reverse ++ done, t.get? d.id = some d) →
      ((commands.reverse ++ done).map Command.aliasName).Nodup →
      commands.foldlM Run.loadSet rows run = .ok rows' run' →
      Listed t (commands.reverse ++ done) rows' run' := by
  induction commands with
  | nil =>
    intro done rows run h _ _ hload
    rw [List.foldlM_nil] at hload
    obtain ⟨rfl, rfl⟩ := step_pure_ok hload
    exact h
  | cons c commands ih =>
    intro done rows run h hself hnodup hload
    rw [List.foldlM_cons] at hload
    obtain ⟨rows₁, run₁, hfirst, hrest⟩ := step_bind_ok hload
    rw [List.reverse_cons, List.append_assoc, List.singleton_append] at hself hnodup ⊢
    have hnew : c.aliasName ∉ done.map Command.aliasName := by
      rw [List.map_append, List.map_cons] at hnodup
      exact (List.nodup_cons.1 hnodup.of_append_right).1
    have hfirst := h.loadSet (fun d hd => hself d (List.mem_append_right _ hd)) hnew hfirst
    exact ih hfirst hself hnodup hrest

/-- Filling the rows of a chain makes the objects of its sets stand in them. -/
theorem fill_lists (ht : t.Grown) (htree : plan.tree = t)
    (hshape : chain.toChainShape ∈ t.chainsFrom 0) (h : Keyed t run)
    (hfill : fill plan chain rows run = .ok rows' run') :
    Listed t (chain.commands.filterMap t.get?) rows' run' := by
  unfold fill at hfill
  rw [htree] at hfill
  obtain ⟨rows₁, run₁, hsource, hsets⟩ := step_bind_ok hfill
  have honward : Onward [] run run₁ := loadSource_onward.ok hsource
  have hkeyed : Keyed t run₁ := by
    intro id c hc i hi
    rw [honward.sets id List.not_mem_nil] at hi
    exact (h id c hc i hi).extends honward.retains.grows
  have hnodup := nodup_slotsOf ht hshape
  unfold slotsOf at hnodup
  rw [List.map_append, List.nodup_append] at hnodup
  have hself : ∀ d ∈ (chain.commands.filterMap t.get?).reverse ++ [], t.get? d.id = some d := by
    intro d hd
    rw [List.append_nil, List.mem_reverse] at hd
    exact (id_mem_of_command ht.ordered hd).1
  have hstart : Listed t [] rows₁ run₁ := ⟨hkeyed, fun c hc => nomatch hc⟩
  have hlisted := hstart.loadSets hself (by rw [List.append_nil]; exact hnodup.1) hsets
  rw [List.append_nil] at hlisted
  exact ⟨hlisted.keyed, fun c hc => hlisted.stand c (List.mem_reverse.2 hc)⟩

/-- What a run keeps of its sets from chain to chain. -/
theorem runChain_keeps {executor : Executor} (ht : t.Grown) (htree : plan.tree = t)
    (hshape : chain.toChainShape ∈ t.chainsFrom 0) (hstocked : Stocked t run) (hkeyed : Keyed t run)
    (hran : runChain executor plan chain run = .ok ⟨⟩ run') : Stocked t run' ∧ Keyed t run' := by
  rcases runChain_ok hran with ⟨-, rfl⟩ | ⟨query, rows, -, -, hydrated⟩
  · exact ⟨hstocked, hkeyed⟩
  · rw [hydrate_eq] at hydrated
    obtain ⟨filled, run₁, hfill, hconnect⟩ := step_bind_ok hydrated
    have hsent : Stocked t { run with sent := run.sent ++ [query.build plan.settings.dialect] } :=
      hstocked.grow (.refl _) rfl
    have hfilled := (Filled.fill ht htree hshape ⟨fun _ hc => (nomatch hc), hsent⟩ hfill).1.stocked
    have hsentKeyed : Keyed t { run with sent := run.sent ++ [query.build plan.settings.dialect] } :=
      hkeyed.grow (.refl _) rfl
    have hlisted := (fill_lists ht htree hshape hsentKeyed hfill).keyed
    have honward : Onward [] run₁ run' := connect_onward.ok hconnect
    have hsets : ∀ id, run'.setOf id = run₁.setOf id := fun id => honward.sets id List.not_mem_nil
    refine ⟨fun id c hc i hi => ?_, fun id c hc i hi => ?_⟩
    · rw [hsets] at hi
      exact (hfilled id c hc i hi).extends honward.retains.grows
    · rw [hsets] at hi
      exact (hlisted id c hc i hi).extends honward.retains.grows

end Run

/-! ## Chains that are reached -/

namespace Plan

variable {P : Schema → Prop} {t : CommandTree} {cfg : Settings} {plan : Plan} {executor : Executor}
  {chain : Chain} {run : Run}

/-- Whether a run of a plan gets to a chain, and what it has loaded by then: all chains before it have
been run. -/
def Reaches (plan : Plan) (executor : Executor) (chain : Chain) (run : Run) : Prop :=
  ∃ pre post, plan.chains = pre ++ chain :: post ∧
    pre.forM (Run.runChain executor plan) (.before plan.tree) = .ok ⟨⟩ run

theorem Reaches.keeps (h : plan.Reaches executor chain run) (ht : t.Grown)
    (hmade : Made P t cfg plan) :
    chain ∈ plan.chains ∧ Run.Stocked t run ∧ Run.Keyed t run := by
  obtain ⟨pre, post, hsplit, hpre⟩ := h
  rw [hmade.tree] at hpre
  refine ⟨hsplit ▸ List.mem_append_right _ (List.mem_cons_self ..), ?_⟩
  refine forM_keeps (P := fun r => Run.Stocked t r ∧ Run.Keyed t r) (fun d hd r r' hr hran => ?_)
    ⟨Run.stocked_before t, Run.keyed_before t⟩ hpre
  refine Run.runChain_keeps ht hmade.tree (hmade.shape_mem ?_) hr.1 hr.2 hran
  exact hsplit ▸ List.mem_append_left _ hd

/-- What a run that ends has left of one of its chains: its sets were empty before it and stay as it has
left them, and the set of its source was settled before it. -/
theorem Made.settled (ht : t.Ordered) (hmade : Made P t cfg plan) (hchain : chain ∈ plan.chains)
    (hrun : plan.chains.forM (Run.runChain executor plan) (.before plan.tree) = .ok ⟨⟩ run) :
    ∃ r r', plan.Reaches executor chain r ∧ Run.runChain executor plan chain r = .ok ⟨⟩ r' ∧
      (∀ i ∈ chain.commands, r.setOf i = [] ∧ run.setOf i = r'.setOf i) ∧
      (∀ s, chain.source = some s → s ∉ chain.commands ∧ run.setOf s = r.setOf s) ∧
      r'.store.Retains run.store := by
  obtain ⟨pre, post, hsplit⟩ := List.append_of_mem hchain
  rw [hsplit] at hrun
  obtain ⟨r, r', hpre, hran, hpost⟩ := forM_split_ok hrun
  have hnodup := hmade.nodup_commands ht
  rw [hsplit, List.flatMap_append, List.flatMap_cons] at hnodup
  obtain ⟨-, hlater, hapart⟩ := List.nodup_append.1 hnodup
  have hafter := Run.runChains_onward ht hmade.tree hpost
  refine ⟨r, r', ⟨pre, post, hsplit, hpre⟩, hran, fun i hi => ⟨?before, ?after⟩, fun s hs => ?source,
    hafter.retains⟩
  case before =>
    rw [(Run.runChains_onward ht hmade.tree hpre).sets i, Run.setOf_before]
    exact fun hmem => hapart i hmem i (List.mem_append_left _ hi) rfl
  case after =>
    exact hafter.sets i fun hmem => (List.nodup_append.1 hlater).2.2 i hi i hmem rfl
  case source =>
    -- the source is in a chain before this one, so neither this one nor any later one has it
    have hshapes := hmade.shapes
    rw [hsplit, List.map_append, List.map_cons] at hshapes
    obtain ⟨shape, hshape, hmem⟩ := CommandTree.source_before ht hshapes.symm hs
    obtain ⟨d, hd, rfl⟩ := List.mem_map.1 hshape
    have hold : s ∈ pre.flatMap fun chain => chain.commands := List.mem_flatMap.2 ⟨d, hd, hmem⟩
    have hown : s ∉ chain.commands := fun h => hapart s hold s (List.mem_append_left _ h) rfl
    refine ⟨hown, ?_⟩
    rw [hafter.sets s fun h => hapart s hold s (List.mem_append_right _ h) rfl]
    exact (Run.runChain_onward ht hmade.tree hran).sets s hown

/-- The set of a command in an output. -/
theorem Made.set_of_run (ht : t.Ordered) (hmade : Made P t cfg plan)
    (hrun : plan.chains.forM (Run.runChain executor plan) (.before plan.tree) = .ok ⟨⟩ run) {i : Nat}
    {c : Command} (hc : t.get? i = some c) :
    (Run.resultSets plan.tree run.sets)[i]? = some ⟨c.aliasName, c.entity.name, run.setOf i⟩ := by
  have hlength : run.sets.length = t.size := by
    rw [(Run.runChains_onward ht hmade.tree hrun).count, hmade.tree]
    exact List.length_replicate
  have hlt : i < run.sets.length := by
    rw [hlength]
    exact (List.getElem?_eq_some_iff.1 hc).1
  have hids : run.sets[i]? = some (run.setOf i) := by
    rw [Run.setOf, List.getElem?_eq_getElem hlt]
    rfl
  unfold Run.resultSets
  rw [hmade.tree, List.getElem?_map, List.getElem?_zip_eq_some (z := (c, run.setOf i)) |>.2 ⟨hc, hids⟩]
  rfl

end Plan

end GraphLoad
