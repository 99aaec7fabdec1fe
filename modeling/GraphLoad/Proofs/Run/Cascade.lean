/-
A whole run over a database. Every chain leaves the sets it loads with the objects of exactly the rows
that the tree reaches, and the store with what their commands say; a chain that is skipped would have
found nothing. Main statement: so does a run that comes to its end, however its tree was cut.
-/
import GraphLoad.Proofs.Run.Telling

namespace GraphLoad

open Sql

namespace Plan

/-- The fields that the statement of a chain selects: the key of its source and what the projections
of its sets choose. -/
def selected (plan : Plan) (shape : ChainShape) : List (Command × String) :=
  ((shape.source.bind plan.tree.get?).toList.flatMap fun p =>
      p.entity.primaryKey.map fun field => (p, field)) ++
    (shape.commands.filterMap plan.tree.get?).flatMap (fieldsOf plan.projections)

/-- A plan over a database with all that its run relies on. -/
structure Ready (db : Database) (t : CommandTree) (plan : Plan) : Prop where
  grounded : Grounded db t
  tree : plan.tree = t
  shapes : plan.chains.map Chain.toChainShape = t.chainsFrom 0
  written : ∀ chain ∈ plan.chains, ∃ root others, t.get? chain.root = some root ∧
    chain.commands.filterMap t.get? = root :: others ∧
    Written db t plan.projections (chain.source.bind t.get?) root (root :: others) chain.query
  apart : ∀ chain ∈ plan.chains, Apart (plan.selected chain.toChainShape)
  keys : ∀ {i c}, t.get? i = some c → ∀ field ∈ c.entity.primaryKey,
    (c, field) ∈ fieldsOf plan.projections c
  conflicts : plan.settings.conflicts = .error
  compatible : ObjectStore.Compatible fun f => ∃ i, plan.Told db t i f

/-- What answers every statement of a plan with the rows that it denotes over a database. -/
def Serves (plan : Plan) (db : Database) (executor : Executor) : Prop :=
  ∀ pre chain post run query rows, plan.chains = pre ++ chain :: post →
    pre.forM (Run.runChain executor plan) (Run.before plan.tree) = .ok ⟨⟩ run →
    Run.queryFor plan chain run = .ok (some query) run →
    executor (run.sent ++ [query.build plan.settings.dialect]) = .ok rows →
    ∀ row, row ∈ rows ↔ row ∈ db.rows query

end Plan

namespace Run

variable {db : Database} {t : CommandTree} {plan : Plan} {chain : Chain} {D D' : Nat → Prop}
  {F F' : Fact → Prop} {rows : List Row} {run run' : Run}

theorem Progress.congr (h : Progress db t D F run) (hD : ∀ j, D' j ↔ D j) (hF : ∀ f, F' f ↔ F f) :
    Progress db t D' F' run := by
  rw [show D' = D from funext fun j => propext (hD j), show F' = F from funext fun f => propext (hF f)]
  exact h

/-- Links leave what was found as it is. -/
theorem Progress.showing (h : Progress db t D F run)
    (hshows : Relation.Showing run.store.identity? F' run'.store) (hsets : run'.sets = run.sets) :
    Progress db t D F' run' := by
  have hext := ObjectStore.extends_of_identity hshows.ident
  have hset : ∀ j, run'.setOf j = run.setOf j := fun j => by rw [setOf, hsets, ← setOf]
  refine ⟨h.wf.grow hshows.wf hext hsets, by rw [hsets]; exact h.length, fun i x hx => ?_,
    fun j hj => (h.found j hj).grow h.wf hext (hset j), fun j hj => ?_, hshows.shows⟩
  · rw [hshows.ident] at hx
    exact h.known i x hx
  · rw [hset]
    exact h.rest j hj

theorem progress_before (db : Database) (t : CommandTree) :
    Progress db t (fun _ => False) (fun _ => False) (before t) := by
  refine ⟨wf_before t, List.length_replicate .., fun i x hx => ?_, fun j hj => hj.elim, fun j _ => ?_,
    ObjectStore.shows_empty⟩
  · cases hx
  · unfold setOf before
    rw [List.getElem?_replicate]
    split <;> rfl

/-! ## One chain -/

section
variable (hr : plan.Ready db t) (hchain : chain ∈ plan.chains)
include hr hchain

theorem mem_chainsFrom : chain.toChainShape ∈ t.chainsFrom 0 := by
  rw [← hr.shapes]
  exact List.mem_map_of_mem hchain

/-- The environments of a chain bring what the tree reaches. -/
theorem brings_chain : Plan.Brings db t chain.toChainShape
    (Plan.Answers db t chain.toChainShape chain.query) := by
  obtain ⟨root, others, hroot, hcommands, hwritten⟩ := hr.written chain hchain
  exact Plan.brings_answers hr.grounded.ordered hr.grounded.plain (mem_chainsFrom hr hchain) hroot
    hcommands hwritten

theorem selects_chain : Selects (plan.selected chain.toChainShape) chain.query := by
  obtain ⟨root, others, -, hcommands, hwritten⟩ := hr.written chain hchain
  unfold Plan.selected
  rw [hr.tree, hcommands]
  exact hwritten.selects

/-- The source of a chain is found again by its key. -/
theorem loadable_source {p : Command} (hp : chain.source.bind t.get? = some p) :
    Loadable db t (plan.selected chain.toChainShape)
      (Plan.Answers db t chain.toChainShape chain.query) p := by
  obtain ⟨s, hs, hget⟩ := Option.bind_eq_some_iff.1 hp
  have hid := hr.grounded.ordered.ids hget
  refine ⟨by rw [hid]; exact hget, fun field hfield => ?_, fun env u henv hu => ?_⟩
  · unfold Plan.selected
    rw [hr.tree, hp]
    refine List.mem_append_left _ ?_
    rw [Option.toList_some, List.flatMap_singleton]
    exact List.mem_map.2 ⟨field, hfield, rfl⟩
  · obtain ⟨x, hx, hreach⟩ := (brings_chain hr hchain).source s p hs hget env henv
    rw [hu] at hx
    cases hx
    rw [hid]
    exact hreach

theorem loadable_set {c : Command} (hc : c ∈ chain.commands.filterMap t.get?) :
    Loadable db t (plan.selected chain.toChainShape)
      (Plan.Answers db t chain.toChainShape chain.query) c ∧
      ∀ u, Reach db t c.id u →
        ∃ env, Plan.Answers db t chain.toChainShape chain.query env ∧ env c.aliasName = some u := by
  obtain ⟨i, hi, hget⟩ := List.mem_filterMap.1 hc
  have hid := hr.grounded.ordered.ids hget
  have hsets := (brings_chain hr hchain).sets i hi c hget
  refine ⟨⟨by rw [hid]; exact hget, fun field hfield => ?_, fun env u henv hu => ?_⟩, fun u hu => ?_⟩
  · unfold Plan.selected
    rw [hr.tree]
    exact List.mem_append_right _ (List.mem_flatMap.2 ⟨c, hc, hr.keys hget field hfield⟩)
  · rw [hid]
    exact (hsets u).1 ⟨env, henv, hu⟩
  · rw [hid] at hu
    exact (hsets u).2 hu

/-- The numbers of a chain are those of its commands. -/
theorem mem_commands_iff (j : Nat) :
    (∃ c ∈ chain.commands.filterMap t.get?, j = c.id) ↔ j ∈ chain.commands := by
  constructor
  · rintro ⟨c, hc, rfl⟩
    obtain ⟨i, hi, hget⟩ := List.mem_filterMap.1 hc
    rw [hr.grounded.ordered.ids hget]
    exact hi
  · intro hj
    have hlt := (CommandTree.partition_chainsFrom hr.grounded.ordered).commands _
      (mem_chainsFrom hr hchain) j hj
    obtain ⟨c, hget⟩ := CommandTree.get?_of_lt hlt
    exact ⟨c, List.mem_filterMap.2 ⟨j, hj, hget⟩, (hr.grounded.ordered.ids hget).symm⟩

theorem source_set {s : Nat} (hs : chain.source = some s) : ∃ p, t.get? s = some p := by
  obtain ⟨root, -, hroot, -⟩ := hr.written chain hchain
  rw [CommandTree.source_eq (mem_chainsFrom hr hchain) hroot] at hs
  obtain ⟨o, ho, rfl⟩ := Option.map_eq_some_iff.1 hs
  obtain ⟨-, p, hp, -⟩ := hr.grounded.ordered.sources hroot ho
  exact ⟨p, hp⟩

omit hr hchain in
/-- The collections of the objects that a source set was found to have. -/
theorem collected_iff (h : Progress db t D F run) {s : Nat} {p : Command} {r : Relation}
    (hs : chain.source = some s) (hp : t.get? s = some p) (hfound : D s)
    (hrel : (t.get? chain.root).bind Command.relation = some r) (hmany : r.isMany = true) (f : Fact) :
    (∃ k ∈ run.setOf s, ∃ x, run.store.identity? k = some x ∧ f = .many x r.property) ↔
      Collected db t chain.toChainShape f := by
  have hobjects := h.found s hfound p hp
  constructor
  · rintro ⟨k, hk, x, hx, rfl⟩
    obtain ⟨u, hu, rfl⟩ := (hobjects x).1 ⟨k, hk, hx⟩
    exact ⟨s, p, r, u, hs, hp, hrel, hmany, hu, rfl⟩
  · rintro ⟨s', p', r', u, hs', hp', hrel', -, hu, rfl⟩
    rw [hs] at hs'
    cases hs'
    rw [hp] at hp'
    cases hp'
    rw [hrel] at hrel'
    cases hrel'
    obtain ⟨k, hk, hx⟩ := (hobjects _).2 ⟨u, hu, rfl⟩
    exact ⟨k, hk, _, hx, rfl⟩

/-- The objects of the source set are given their collections, which completes what is said. -/
theorem initSource_progress
    (h : Progress db t D (fun f => F f ∨ ∃ c ∈ chain.commands.filterMap t.get?, EnvsSay plan t
      (Plan.Answers db t chain.toChainShape chain.query) c f) run)
    (hF : ∀ f, F f → ∃ i, plan.Told db t i f) (hfound : ∀ s, chain.source = some s → D s)
    (hinit : initSource plan chain run = .ok ⟨⟩ run') :
    Progress db t D (fun f => F f ∨ ∃ i ∈ chain.commands, plan.Told db t i f) run' := by
  have hshape := mem_chainsFrom hr hchain
  have htold : ∀ f, _ ↔ ∃ i ∈ chain.commands, plan.Told db t i f :=
    told_iff hr.grounded.ordered hshape (brings_chain hr hchain)
  rcases initSource_ok hinit with ⟨rfl, hnone⟩ | ⟨s, r, hs, hrel, hmany, rfl⟩
  · refine h.congr (fun _ => Iff.rfl) fun f => or_congr_right ?_
    rw [← htold f]
    refine ⟨fun hf => hf.resolve_right ?_, .inl⟩
    rintro ⟨s, p, r, x, hs, hp, hrel, hmany, -⟩
    rw [hnone s r hs (by rw [hr.tree]; exact hrel)] at hmany
    cases hmany
  · rw [hr.tree] at hrel
    obtain ⟨p, hp⟩ := source_set hr hchain hs
    have hids : ∀ k ∈ run.setOf s, k < run.store.size := by
      intro k hk
      obtain ⟨a, ha, -⟩ := h.wf.members hp k hk
      exact ObjectStore.get?_lt ha
    have hiff : ∀ f, ((F f ∨ ∃ c ∈ chain.commands.filterMap t.get?, EnvsSay plan t
        (Plan.Answers db t chain.toChainShape chain.query) c f) ∨
          ∃ k ∈ run.setOf s, ∃ x, run.store.identity? k = some x ∧
            f = .many x r.property) ↔
        F f ∨ ∃ i ∈ chain.commands, plan.Told db t i f := by
      intro f
      rw [collected_iff h hs hp (hfound s hs) hrel hmany, or_assoc, htold f]
    have hshowing : Relation.Showing run.store.identity? _ run.store :=
      ⟨h.wf.store, fun _ => rfl, h.shows⟩
    have hinited := hshowing.initMany hids hr.compatible fun f hf => by
      rcases (hiff f).1 hf with hf | ⟨i, -, hi⟩
      · exact hF f hf
      · exact ⟨i, hi⟩
    have hprogress : Progress db t D _ { run with
        store := (run.setOf s).foldl (·.initMany · r.property) run.store } :=
      h.showing hinited rfl
    exact hprogress.congr (fun _ => Iff.rfl) fun f => (hiff f).symm

/-- Hydrating the rows that a chain is answered finds its sets, and adds what they say. -/
theorem hydrate_progress (h : Progress db t D F run) (hF : ∀ f, F f → ∃ i, plan.Told db t i f)
    (hfound : ∀ s, chain.source = some s → D s)
    (hrows : ∀ row, row ∈ rows ↔
      ∃ env, Plan.Answers db t chain.toChainShape chain.query env ∧ db.row chain.query env = row)
    (hydrated : hydrate plan chain rows run = .ok ⟨⟩ run') :
    Progress db t (fun j => D j ∨ j ∈ chain.commands)
      (fun f => F f ∨ ∃ i ∈ chain.commands, plan.Told db t i f) run' := by
  obtain ⟨root, others, -, hcommands, hwritten⟩ := hr.written chain hchain
  have hselects := selects_chain hr hchain
  have hapart := hr.apart chain hchain
  have hshape := mem_chainsFrom hr hchain
  obtain ⟨rows₁, run₁, rows₂, run₂, run₃, hsource, hsets, hlinks, hinit⟩ := hydrate_ok hydrated
  rw [hr.tree] at hsets hlinks
  -- the rows are those of the environments, and come to hold their objects
  have hstart : Mirroring db t chain.query (Plan.Answers db t chain.toChainShape chain.query) D F []
      rows run := by
    refine ⟨h, fun row hrow => ?_, fun row hrow => ?_, fun env henv => ?_⟩
    · obtain ⟨env, henv, rfl⟩ := (hrows row).1 hrow
      exact row_regular hr.grounded.regular hselects henv.1
    · obtain ⟨env, henv, rfl⟩ := (hrows row).1 hrow
      exact ⟨env, henv, rfl, fun _ hd => nomatch hd⟩
    · exact ⟨_, (hrows _).2 ⟨env, henv, rfl⟩, rfl, fun _ hd => nomatch hd⟩
  have hsourced := hstart.loadSource hr.grounded hselects hapart hr.tree
    (fun p hp => loadable_source hr hchain hp) hsource
  have hloaded := hsourced.loadSets hr.grounded hselects hapart
    (by rw [hcommands]; exact hwritten.distinct) (fun c hc => loadable_set hr hchain hc) hsets
  have hprogress : Progress db t (fun j => D j ∨ j ∈ chain.commands) F run₂ :=
    hloaded.progress.congr (fun j => or_congr_right (mem_commands_iff hr hchain j).symm)
      fun _ => Iff.rfl
  have hdone : ∀ c ∈ chain.commands.filterMap t.get?, c ∈
      (chain.commands.filterMap t.get?).reverse ++ (chain.source.bind t.get?).toList := fun c hc =>
    List.mem_append_left _ (List.mem_reverse.2 hc)
  -- linked row by row they say what the commands do
  obtain ⟨hshows, hsame⟩ := linkSets_shows ⟨hprogress.wf.store, fun _ => rfl, hprogress.shows⟩
    hloaded.mirrors hdone (fun c hc o p ho hp => by
      rcases parent_loaded hr.grounded.ordered hshape hc ho hp with hs | hs
      · exact List.mem_append_right _ (by rw [hs]; exact List.mem_singleton_self p)
      · exact hdone p hs) hr.tree hr.conflicts hr.compatible
    (fun f hf => by
      rcases hf with hf | hsaid
      · exact hF f hf
      · obtain ⟨i, -, hi⟩ := (told_iff hr.grounded.ordered hshape (brings_chain hr hchain) f).1
          (.inl hsaid)
        exact ⟨i, hi⟩) hlinks
  exact initSource_progress hr hchain (hprogress.showing hshows hsame) hF
    (fun s hs => .inl (hfound s hs)) hinit

/-- A chain that is skipped would have found nothing and have nothing to say. -/
theorem skipped_progress (h : Progress db t D F run) (hfound : ∀ s, chain.source = some s → D s)
    (hquery : queryFor plan chain run = .ok none run) :
    Progress db t (fun j => D j ∨ j ∈ chain.commands)
      (fun f => F f ∨ ∃ i ∈ chain.commands, plan.Told db t i f) run := by
  have hbrings := brings_chain hr hchain
  have hshape := mem_chainsFrom hr hchain
  obtain ⟨s, hs, hempty⟩ : ∃ s, chain.source = some s ∧ run.setOf s = [] := by
    obtain ⟨-, ⟨-, heq⟩ | ⟨s, hs, ⟨hempty, -⟩ | ⟨-, _, _, -, -, heq⟩⟩⟩ := queryFor_ok hquery
    · cases heq
    · exact ⟨s, hs, hempty⟩
    · cases heq
  obtain ⟨p, hp⟩ := source_set hr hchain hs
  -- no environment starts from a row of a source set that is empty
  have hnothing : ∀ env, ¬ Plan.Answers db t chain.toChainShape chain.query env := by
    intro env henv
    obtain ⟨x, -, hx⟩ := hbrings.source s p hs hp env henv
    exact (h.found s (hfound s hs)).not_reach hp hempty hx
  have hreach : ∀ i ∈ chain.commands, ∀ u, ¬ Reach db t i u := by
    intro i hi u hu
    obtain ⟨c, hc, rfl⟩ := (mem_commands_iff hr hchain i).2 hi
    obtain ⟨env, henv, -⟩ := (loadable_set hr hchain hc).2 u hu
    exact hnothing env henv
  refine ⟨h.wf, h.length, h.known, fun j hj => ?_, fun j hj => h.rest j fun hd => hj (.inl hd),
    h.shows.iff fun f => ⟨fun hf => hf.resolve_right ?_, .inl⟩⟩
  · by_cases hd : D j
    · exact h.found j hd
    · intro c _ x
      rw [h.rest j hd]
      constructor
      · rintro ⟨k, hk, -⟩
        cases hk
      · rintro ⟨u, hu, -⟩
        exact (hreach j (hj.resolve_left hd) u hu).elim
  · rintro ⟨i, hi, c, o, p', x, y, hc, ho, hp', hx, -⟩
    rcases CommandTree.parent_of_mem hr.grounded.ordered hshape hi hc ho with ⟨-, hsource⟩ | ⟨hmem, -⟩
    · rw [hs] at hsource
      cases hsource
      exact (h.found _ (hfound _ hs)).not_reach hp hempty hx
    · exact hreach o.parent hmem x hx

theorem runChain_progress {executor : Executor} (h : Progress db t D F run)
    (hF : ∀ f, F f → ∃ i, plan.Told db t i f) (hfound : ∀ s, chain.source = some s → D s)
    (hserves : ∀ query rows, queryFor plan chain run = .ok (some query) run →
      executor (run.sent ++ [query.build plan.settings.dialect]) = .ok rows →
      ∀ row, row ∈ rows ↔ row ∈ db.rows query)
    (hran : runChain executor plan chain run = .ok ⟨⟩ run') :
    Progress db t (fun j => D j ∨ j ∈ chain.commands)
      (fun f => F f ∨ ∃ i ∈ chain.commands, plan.Told db t i f) run' := by
  rcases runChain_ok hran with ⟨hquery, rfl⟩ | ⟨query, rows, hquery, hrows, hydrated⟩
  · exact skipped_progress hr hchain h hfound hquery
  · obtain ⟨root, others, hroot, hcommands, hwritten⟩ := hr.written chain hchain
    have hsent : Progress db t D F
        { run with sent := run.sent ++ [query.build plan.settings.dialect] } :=
      ⟨h.wf.grow h.wf.store (.refl _) rfl, h.length, h.known, h.found, h.rest, h.shows⟩
    refine hydrate_progress hr hchain hsent hF hfound (fun row => ?_) hydrated
    rw [hserves query rows hquery hrows row]
    exact mem_rows_query hr.grounded hr.tree (mem_chainsFrom hr hchain) hroot hwritten h.wf
      (fun s hs => h.found s (hfound s hs)) hquery row

end

/-! ## The whole run -/

/-- A run that comes to its end has found every set and shows all that its commands say. -/
theorem run_progress (hr : plan.Ready db t) {executor : Executor} (hserves : plan.Serves db executor)
    (hrun : plan.chains.forM (runChain executor plan) (before plan.tree) = .ok ⟨⟩ run) :
    Progress db t (· < t.size) (fun f => ∃ i, plan.Told db t i f) run := by
  have hpart := CommandTree.partition_chainsFrom hr.grounded.ordered
  -- the chains leave no command out
  have hall : ∀ j, j < t.size ↔ ∃ chain ∈ plan.chains, j ∈ chain.commands := by
    intro j
    constructor
    · intro hj
      obtain ⟨i, shape, hshape, hcount, -⟩ := hpart.once j hj
      rw [← hr.shapes, List.getElem?_map] at hshape
      obtain ⟨chain, hchain, rfl⟩ := Option.map_eq_some_iff.1 hshape
      exact ⟨chain, List.mem_of_getElem? hchain, List.count_pos_iff.1 (by rw [hcount]; exact Nat.one_pos)⟩
    · rintro ⟨chain, hchain, hj⟩
      exact hpart.commands _ (mem_chainsFrom hr hchain) j hj
  have hend := forM_builds (P := fun pre r =>
    pre.forM (runChain executor plan) (before plan.tree) = .ok ⟨⟩ r ∧
      Progress db t (fun j => ∃ chain ∈ pre, j ∈ chain.commands)
        (fun f => ∃ chain ∈ pre, ∃ i ∈ chain.commands, plan.Told db t i f) r)
    (fun pre chain post hsplit r r' ⟨hpre, hprogress⟩ hran => ?_) ⟨rfl, ?_⟩ hrun
  · refine hend.2.congr hall fun f => ⟨?_, ?_⟩
    · rintro ⟨i, c, o, p, x, y, hi, hsaid⟩
      obtain ⟨chain, hchain, hmem⟩ := (hall i).1 (CommandTree.get?_lt hi)
      exact ⟨chain, hchain, i, hmem, c, o, p, x, y, hi, hsaid⟩
    · rintro ⟨chain, -, i, -, hi⟩
      exact ⟨i, hi⟩
  · -- the source of the next chain has been found, by a chain before it
    have hchain : chain ∈ plan.chains := hsplit ▸ List.mem_append_right _ (List.mem_cons_self ..)
    have hsource : ∀ s, chain.source = some s → ∃ d ∈ pre, s ∈ d.commands := by
      intro s hs
      have hshapes := hr.shapes
      rw [hsplit, List.map_append, List.map_cons] at hshapes
      obtain ⟨shape, hshape, hmem⟩ :=
        CommandTree.source_before hr.grounded.ordered hshapes.symm hs
      obtain ⟨d, hd, rfl⟩ := List.mem_map.1 hshape
      exact ⟨d, hd, hmem⟩
    have hnext := runChain_progress hr hchain hprogress (fun f ⟨_, _, i, _, hi⟩ => ⟨i, hi⟩) hsource
      (fun query rows hquery hrows => hserves pre chain post r query rows hsplit hpre hquery hrows)
      hran
    refine ⟨forM_snoc_ok hpre hran, hnext.congr (fun j => ?_) fun f => ?_⟩
    · simp only [List.mem_append, List.mem_singleton, or_and_right, exists_or, exists_eq_left]
    · simp only [List.mem_append, List.mem_singleton, or_and_right, exists_or, exists_eq_left]
  · rw [hr.tree]
    exact (progress_before db t).congr (fun j => by simp) fun f => by simp

end Run

end GraphLoad
