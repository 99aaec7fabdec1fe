/-
Loading alike. What a set holds at the end of a run is what its chain was answered, and that depends on
the tables of a database and on what the source set of the chain holds. So a plan whose chains bring the
sets of the chains of another plan from the same environments loads those sets alike, however much
more it loads.
-/
import GraphLoad.Proofs.Run.Gathering
import GraphLoad.Proofs.Run.Cascade

namespace GraphLoad

open Sql

namespace Plan

variable {P : Schema → Prop} {db : Database} {t t' : CommandTree} {cfg cfg' : Settings}
  {plan plan' : Plan} {executor executor' : Executor} {chain chain' : Chain} {run run' : Run}

/-! ## What one run loads -/

/-- What a statement answers over a database are rows that columns can hold. -/
theorem Serves.regular (hserves : plan.Serves db executor) (hmade : Made P t cfg plan)
    (hdb : db.Regular) {pre post : List Chain} {r : Run} {query : Select} {rows : List Row}
    (hsplit : plan.chains = pre ++ chain :: post)
    (hpre : pre.forM (Run.runChain executor plan) (.before plan.tree) = .ok ⟨⟩ r)
    (hquery : Run.queryFor plan chain r = .ok (some query) r)
    (hrows : executor (r.sent ++ [query.build plan.settings.dialect]) = .ok rows) :
    ∀ row ∈ rows, row.Regular := by
  intro row hrow
  have hchain : chain ∈ plan.chains := hsplit ▸ List.mem_append_right _ (List.mem_cons_self ..)
  obtain ⟨env, henv, -, rfl⟩ :=
    Database.mem_rows.1 ((hserves pre chain post r query rows hsplit hpre hquery hrows row).1 hrow)
  -- restricting a statement changes neither its tables nor its columns
  have hsame : query.source = chain.query.source ∧ query.joins = chain.query.joins ∧
      query.columns = chain.query.columns := by
    obtain ⟨-, ⟨-, heq⟩ | ⟨s, -, ⟨-, heq⟩ | ⟨-, p, condition, -, -, heq⟩⟩⟩ := Run.queryFor_ok hquery <;>
      cases heq
    · exact ⟨rfl, rfl, rfl⟩
    · exact ⟨rfl, rfl, rfl⟩
  exact row_regular hdb (selects_congr (hmade.selects hchain) hsame.2.2) henv

/-- A run keeps its objects apart, chain by chain, as long as its statements are answered. -/
theorem Serves.wf (hserves : plan.Serves db executor) (hmade : Made P t cfg plan) (ht : t.Grown)
    (hdb : db.Regular) {pre : List Chain} {r : Run}
    (hpre : pre.forM (Run.runChain executor plan) (.before plan.tree) = .ok ⟨⟩ r) :
    ∀ post, plan.chains = pre ++ post → r.WF t := by
  refine (forM_builds (P := fun done r =>
    done.forM (Run.runChain executor plan) (.before plan.tree) = .ok ⟨⟩ r ∧
      ∀ post, plan.chains = done ++ post → r.WF t) ?step ?start hpre).2
  case start => exact ⟨rfl, fun _ _ => hmade.tree ▸ Run.wf_before plan.tree⟩
  case step =>
    rintro done chain - - r r' ⟨hdone, ih⟩ hran
    refine ⟨forM_snoc_ok hdone hran, fun post hpost => ?_⟩
    rw [List.append_assoc, List.singleton_append] at hpost
    have hwf := ih _ hpost
    have hchain : chain ∈ plan.chains := hpost ▸ List.mem_append_right _ (List.mem_cons_self ..)
    rcases Run.runChain_ok hran with ⟨-, rfl⟩ | ⟨query, rows, hquery, hrows, hydrated⟩
    · exact hwf
    · have hsent : ({ r with sent := r.sent ++ [query.build plan.settings.dialect] } : Run).WF t :=
        hwf.grow hwf.store (.refl _) rfl
      exact Run.hydrate_wf ht.ordered hmade.tree (hmade.shape_mem hchain) hsent
        (hserves.regular hmade hdb hpost hdone hquery hrows) hydrated

/-- A chain that asks makes each of its sets hold what the answer of the database brings. -/
theorem Serves.contains (hserves : plan.Serves db executor) (hmade : Made P t cfg plan)
    (ht : t.Grown) (hdb : db.Regular) {pre post : List Chain} {r r' : Run} {query : Select}
    {rows : List Row} (hsplit : plan.chains = pre ++ chain :: post)
    (hpre : pre.forM (Run.runChain executor plan) (.before plan.tree) = .ok ⟨⟩ r)
    (hquery : Run.queryFor plan chain r = .ok (some query) r)
    (hrows : executor (r.sent ++ [query.build plan.settings.dialect]) = .ok rows)
    (hydrated : Run.hydrate plan chain rows
      { r with sent := r.sent ++ [query.build plan.settings.dialect] } = .ok ⟨⟩ r')
    {i : Nat} (hi : i ∈ chain.commands) {c : Command} (hc : t.get? i = some c) (x : Identity) :
    r'.Contains i x ↔ ∃ env ∈ db.envs query, db.truth env query.condition = some true ∧
      c.entity.Brings c.aliasName (db.row query env) x := by
  have hchain : chain ∈ plan.chains := hsplit ▸ List.mem_append_right _ (List.mem_cons_self ..)
  have hwf : r.WF t := hserves.wf hmade ht hdb hpre _ hsplit
  have hsent : ({ r with sent := r.sent ++ [query.build plan.settings.dialect] } : Run).WF t :=
    hwf.grow hwf.store (.refl _) rfl
  have hlength : r.sets.length = t.size := by
    rw [(Run.runChains_onward ht.ordered hmade.tree hpre).count, hmade.tree]
    exact List.length_replicate
  have hbrings := Run.hydrate_brings ht.ordered hmade.tree (hmade.shape_mem hchain) hsent hlength
    (hserves.regular hmade hdb hsplit hpre hquery hrows) hydrated c
    (List.mem_filterMap.2 ⟨i, hi, hc⟩) x
  rw [← ht.ordered.ids hc, hbrings]
  simp only [hserves pre chain post r query rows hsplit hpre hquery hrows, Database.mem_rows,
    ← exists_and_right, and_assoc]
  constructor
  · rintro ⟨_, env, henv, htrue, rfl, hx⟩
    exact ⟨env, henv, htrue, hx⟩
  · rintro ⟨env, henv, htrue, hx⟩
    exact ⟨_, env, henv, htrue, rfl, hx⟩

/-- What a chain is restricted by, if its source set holds what it holds at the end of a run. -/
def Restricts (t : CommandTree) (run : Run) (chain : Chain) (condition : Condition) : Prop :=
  (chain.source = none ∧ condition = .always) ∨
    ∃ s p objects store, chain.source = some s ∧ t.get? s = some p ∧ (∃ x, run.Contains s x) ∧
      (∀ x, (∃ k ∈ objects, store.identity? k = some x) ↔ run.Contains s x) ∧
        Run.keyCondition p objects store = .ok condition

theorem Restricts.exists_contains {condition : Condition} (h : Restricts t run chain condition)
    {s : Nat} (hs : chain.source = some s) : ∃ x, run.Contains s x := by
  rcases h with ⟨hnone, -⟩ | ⟨s', _, _, _, hs', -, hsome, -⟩
  · rw [hnone] at hs
    cases hs
  · rw [hs'] at hs
    cases hs
    exact hsome

/-- At the end of a run the sets of a chain hold what the rows of its statement bring; if the source
set of the chain holds nothing, nor do they. -/
theorem Made.contains_iff (hmade : Made P t cfg plan) (ht : t.Grown) (hdb : db.Regular)
    (hserves : plan.Serves db executor)
    (hrun : plan.chains.forM (Run.runChain executor plan) (.before plan.tree) = .ok ⟨⟩ run)
    (hchain : chain ∈ plan.chains) :
    (∃ s, chain.source = some s ∧ (¬ ∃ x, run.Contains s x) ∧
      ∀ i ∈ chain.commands, ¬ ∃ x, run.Contains i x) ∨
    ∃ condition, Restricts t run chain condition ∧
      ∀ i ∈ chain.commands, ∀ c, t.get? i = some c → ∀ x, run.Contains i x ↔
        ∃ env ∈ db.envs chain.query, (db.truth env chain.query.condition = some true ∧
          db.truth env condition = some true) ∧
            c.entity.Brings c.aliasName (db.row chain.query env) x := by
  obtain ⟨r, r', ⟨pre, post, hsplit, hpre⟩, hran, hsets, hsource, hretains⟩ :=
    hmade.settled ht.ordered hchain hrun
  have hwf : r.WF t := hserves.wf hmade ht hdb hpre _ hsplit
  have hwf' : r'.WF t := hserves.wf hmade ht hdb (forM_snoc_ok hpre hran) post (by simp [hsplit])
  rcases Run.runChain_ok hran with ⟨hquery, rfl⟩ | ⟨query, rows, hquery, hrows, hydrated⟩
  · -- a chain that asks nothing has a source set without objects
    obtain ⟨-, ⟨-, heq⟩ | ⟨s, hs, ⟨hempty, -⟩ | ⟨-, p, condition, -, -, heq⟩⟩⟩ :=
      Run.queryFor_ok hquery
    · cases heq
    · refine .inl ⟨s, hs, ?_, fun i hi => ?_⟩
      · rintro ⟨x, k, hk, -⟩
        rw [(hsource s hs).2, hempty] at hk
        cases hk
      · rintro ⟨x, k, hk, -⟩
        rw [(hsets i hi).2, (hsets i hi).1] at hk
        cases hk
    · cases heq
  · right
    -- a set stays what its chain has made of it
    have hheld : ∀ i ∈ chain.commands, ∀ c, t.get? i = some c → ∀ x,
        run.Contains i x ↔ ∃ env ∈ db.envs query, db.truth env query.condition = some true ∧
          c.entity.Brings c.aliasName (db.row query env) x := fun i hi c hc x =>
      (hwf'.contains_grow hc hretains.grows (hsets i hi).2).trans
        (hserves.contains hmade ht hdb hsplit hpre hquery hrows hydrated hi hc x)
    obtain ⟨-, ⟨hnone, heq⟩ | ⟨s, hs, ⟨-, heq⟩ | ⟨hne, p, condition, hp, hcondition, heq⟩⟩⟩ :=
      Run.queryFor_ok hquery
    · cases heq
      refine ⟨.always, .inl ⟨hnone, rfl⟩, fun i hi c hc x => ?_⟩
      rw [hheld i hi c hc x]
      simp only [Database.truth, and_true]
    · cases heq
    · cases heq
      rw [hmade.tree] at hp
      have hgrows := ((Run.runChain_onward ht.ordered hmade.tree hran).retains.trans hretains).grows
      have hsame : ∀ x, run.Contains s x ↔ r.Contains s x := fun x =>
        hwf.contains_grow hp hgrows (hsource s hs).2
      refine ⟨condition, .inr ⟨s, p, r.setOf s, r.store, hs, hp, ?_, fun x => (hsame x).symm,
        hcondition⟩, fun i hi c hc x => ?_⟩
      · simp only [hsame]
        exact (hwf.contains_some hp).2 hne
      · rw [hheld i hi c hc x]
        refine exists_congr fun env => and_congr_right fun _ => and_congr_left fun _ => ?_
        rw [Condition.truth_restrict, both_eq_true]

/-! ## What two runs load -/

/-- A chain that brings the sets of a chain of another plan, from environments that are the same where
those sets and their source stand. -/
structure Alike (db : Database) (t : CommandTree) (chain chain' : Chain) : Prop where
  source : chain'.source = chain.source
  commands : ∀ i ∈ chain.commands, i ∈ chain'.commands
  widens : db.Widens chain.query chain'.query
  starts : ∀ s p, chain.source = some s → t.get? s = some p → p.aliasName ∈ chain.query.aliases
  demands : ∀ env env', (∀ b ∈ chain.query.aliases, env' b = env b) →
    (db.truth env' chain'.query.condition = some true ↔
      db.truth env chain.query.condition = some true)
  keys : ∀ i ∈ chain.commands, ∀ c, t.get? i = some c → ∀ env env',
    (∀ b ∈ chain.query.aliases, env' b = env b) →
      c.entity.rowKey (db.row chain'.query env') c.aliasName =
        c.entity.rowKey (db.row chain.query env) c.aliasName

/-- Alike chains are restricted alike once their source sets hold the same. -/
theorem Alike.restricts (h : Alike db t chain chain')
    (hsub : ∀ {i c}, t.get? i = some c →
      ∃ c', t'.get? i = some c' ∧ c'.entity = c.entity ∧ c'.aliasName = c.aliasName)
    (hheld : ∀ s, chain.source = some s → ∀ x, run'.Contains s x ↔ run.Contains s x)
    {condition condition' : Condition} (hr : Restricts t run chain condition)
    (hr' : Restricts t' run' chain' condition') {env env' : Env}
    (hsame : ∀ b ∈ chain.query.aliases, env' b = env b) :
    db.truth env' condition' = some true ↔ db.truth env condition = some true := by
  rcases hr with ⟨hnone, rfl⟩ | ⟨s, p, objects, store, hs, hp, -, hobjects, hcondition⟩
  · rcases hr' with ⟨-, rfl⟩ | ⟨s', _, _, _, hs', -⟩
    · rfl
    · rw [h.source, hnone] at hs'
      cases hs'
  · rcases hr' with ⟨hnone', -⟩ | ⟨s', p', objects', store', hs', hp', -, hobjects', hcondition'⟩
    · rw [h.source, hs] at hnone'
      cases hnone'
    · rw [h.source, hs] at hs'
      cases hs'
      obtain ⟨d, hd, hentity, halias⟩ := hsub hp
      rw [hp'] at hd
      cases hd
      refine Run.keyCondition_congr hcondition hcondition' hentity halias (fun x => ?_)
        (hsame _ (h.starts s p hs hp))
      rw [hobjects', hobjects, hheld s hs]

/-- A plan that has an alike chain for every chain of another plan loads the sets of that one alike. -/
theorem contains_alike (hmade : Made P t cfg plan) (hmade' : Made P t' cfg' plan') (ht : t.Grown)
    (ht' : t'.Grown) (hdb : db.Regular)
    (hsub : ∀ {i c}, t.get? i = some c →
      ∃ c', t'.get? i = some c' ∧ c'.entity = c.entity ∧ c'.aliasName = c.aliasName)
    (halike : ∀ chain ∈ plan.chains, ∃ chain' ∈ plan'.chains, Alike db t chain chain')
    (hserves : plan.Serves db executor) (hserves' : plan'.Serves db executor')
    (hrun : plan.chains.forM (Run.runChain executor plan) (.before plan.tree) = .ok ⟨⟩ run)
    (hrun' : plan'.chains.forM (Run.runChain executor' plan') (.before plan'.tree) = .ok ⟨⟩ run')
    (i : Nat) {c : Command} (hc : t.get? i = some c) (x : Identity) :
    run'.Contains i x ↔ run.Contains i x := by
  induction i using Nat.strongRecOn generalizing c x with
  | ind i ih =>
    obtain ⟨chain, hchain, hi⟩ := hmade.exists_chain ht.ordered (CommandTree.get?_lt hc)
    obtain ⟨chain', hchain', h⟩ := halike chain hchain
    obtain ⟨c', hc', hentity, halias⟩ := hsub hc
    -- the source set holds the same in both runs, as it comes before the sets of the chain
    have hheld : ∀ s, chain.source = some s → ∀ x, run'.Contains s x ↔ run.Contains s x := by
      intro s hs x
      have hlt := hmade.source_lt ht.ordered hchain hs hi
      obtain ⟨p, hp⟩ := CommandTree.get?_of_lt (Nat.lt_trans hlt (CommandTree.get?_lt hc))
      exact ih s hlt hp x
    have hempty : ∀ s, chain.source = some s →
        ((∃ x, run'.Contains s x) ↔ ∃ x, run.Contains s x) :=
      fun s hs => exists_congr (hheld s hs)
    rcases hmade.contains_iff ht hdb hserves hrun hchain with
      ⟨s, hs, hnone, hfree⟩ | ⟨condition, hr, hsets⟩ <;>
    rcases hmade'.contains_iff ht' hdb hserves' hrun' hchain' with
      ⟨s', hs', hnone', hfree'⟩ | ⟨condition', hr', hsets'⟩
    · exact iff_of_false (fun hx => hfree' i (h.commands i hi) ⟨x, hx⟩) fun hx => hfree i hi ⟨x, hx⟩
    · exact (hnone ((hempty s hs).1 (hr'.exists_contains (h.source.trans hs)))).elim
    · rw [h.source] at hs'
      exact (hnone' ((hempty s' hs').2 (hr.exists_contains hs'))).elim
    · rw [hsets i hi c hc, hsets' i (h.commands i hi) c' hc']
      have hagree : ∀ env env', (∀ b ∈ chain.query.aliases, env' b = env b) →
          (((db.truth env' chain'.query.condition = some true ∧
            db.truth env' condition' = some true) ∧
              c'.entity.Brings c'.aliasName (db.row chain'.query env') x) ↔
            (db.truth env chain.query.condition = some true ∧ db.truth env condition = some true) ∧
              c.entity.Brings c.aliasName (db.row chain.query env) x) := by
        intro env env' hsame
        rw [hentity, halias, h.demands env env' hsame, h.restricts hsub hheld hr hr' hsame,
          Entity.brings_congr (h.keys i hi c hc env env' hsame)]
      constructor
      · rintro ⟨env', henv', hfacts⟩
        obtain ⟨env, henv, hsame⟩ := h.widens.restricts env' henv'
        exact ⟨env, henv, (hagree env env' hsame).1 hfacts⟩
      · rintro ⟨env, henv, hfacts⟩
        obtain ⟨env', henv', hsame⟩ := h.widens.keeps env henv
        exact ⟨env', henv', (hagree env env' hsame).2 hfacts⟩

end Plan

end GraphLoad
