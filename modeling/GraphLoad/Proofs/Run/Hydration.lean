/-
What the steps of a run do when they succeed: how rows and objects change while a chain is hydrated,
which query a chain sends, and how the objects of its sets are found and linked.
-/
import GraphLoad.Proofs.Object.Linking
import GraphLoad.Run.Cascade

namespace GraphLoad

namespace Run

variable {plan : Plan} {chain : Chain} {rows rows' : List Row} {run run' : Run}

/-! ## Loading -/

theorem loadAlias_ok {e : Entity} {aliasName : String} {ids : List Nat} (hwf : run.store.WF)
    (hrows : ∀ row ∈ rows, row.Regular)
    (h : loadAlias e aliasName rows run = .ok (rows', ids) run') :
    e.Loads aliasName rows run.store rows' run'.store ids ∧ ids.Nodup ∧
      run' = { run with store := run'.store } := by
  unfold loadAlias at h
  dsimp only at h
  split at h
  · rename_i objects hobjects
    cases h
    obtain ⟨hloads, hnodup⟩ := Entity.objectLoad_ok hwf hrows hobjects
    exact ⟨hloads, hnodup, rfl⟩
  · cases h

theorem loadSource_ok (hwf : run.store.WF) (hrows : ∀ row ∈ rows, row.Regular)
    (h : loadSource plan chain rows run = .ok rows' run') :
    (chain.source.bind plan.tree.get? = none ∧ rows' = rows ∧ run' = run) ∨
      ∃ source ids, chain.source.bind plan.tree.get? = some source ∧
        source.entity.Loads source.aliasName rows run.store rows' run'.store ids ∧
        run' = { run with store := run'.store } := by
  unfold loadSource at h
  cases hsource : chain.source.bind plan.tree.get? <;> rw [hsource] at h
  case none =>
    obtain ⟨rfl, rfl⟩ := step_pure_ok h
    exact .inl ⟨rfl, rfl, rfl⟩
  case some source =>
    obtain ⟨⟨loaded, ids⟩, run₁, hload, h⟩ := step_bind_ok h
    obtain ⟨rfl, rfl⟩ := step_pure_ok h
    obtain ⟨hloads, -, hrun⟩ := loadAlias_ok hwf hrows hload
    exact .inr ⟨source, ids, rfl, hloads, hrun⟩

theorem loadSet_ok {command : Command} (hwf : run.store.WF) (hrows : ∀ row ∈ rows, row.Regular)
    (h : loadSet rows command run = .ok rows' run') :
    ∃ ids, command.entity.Loads command.aliasName rows run.store rows' run'.store ids ∧ ids.Nodup ∧
      run' = { run with store := run'.store, sets := run.sets.set command.id ids } := by
  unfold loadSet at h
  obtain ⟨⟨loaded, ids⟩, run₁, hload, h⟩ := step_bind_ok h
  obtain ⟨⟨⟩, run₂, hmodify, h⟩ := step_bind_ok h
  obtain ⟨rfl, rfl⟩ := step_pure_ok h
  obtain ⟨hloads, hnodup, hrun⟩ := loadAlias_ok hwf hrows hload
  have hset := step_modify_ok hmodify
  subst hset
  exact ⟨ids, hloads, hnodup, by rw [hrun]⟩

/-! ## Linking -/

theorem linking_ok {step : Linking Unit} (h : linking step run = .ok ⟨⟩ run') :
    ∃ l, step { store := run.store } = .ok ⟨⟩ l ∧ run'.store = l.store ∧ run'.sets = run.sets ∧
      run'.sent = run.sent := by
  unfold linking at h
  split at h
  · rename_i l hl
    cases h
    exact ⟨l, hl, rfl, rfl, rfl⟩
  · cases h

theorem linkSet_ok {command : Command} (h : linkSet plan rows command run = .ok ⟨⟩ run') :
    ((∀ origin parent, command.origin = some origin → plan.tree.get? origin.parent ≠ some parent) ∧
        run' = run) ∨
      ∃ origin parent l, command.origin = some origin ∧
        plan.tree.get? origin.parent = some parent ∧
        origin.relation.link parent.aliasName command.aliasName (plan.reverse? command.id)
          plan.settings.conflicts rows { store := run.store } = .ok ⟨⟩ l ∧
        run'.store = l.store ∧ run'.sets = run.sets ∧ run'.sent = run.sent := by
  unfold linkSet at h
  cases horigin : command.origin <;> rw [horigin] at h
  case none =>
    obtain ⟨-, rfl⟩ := step_pure_ok h
    exact .inl ⟨fun _ _ ho => (nomatch ho), rfl⟩
  case some origin =>
    dsimp only at h
    cases hparent : plan.tree.get? origin.parent <;> rw [hparent] at h
    case none =>
      obtain ⟨-, rfl⟩ := step_pure_ok h
      refine .inl ⟨fun o p ho hp => ?_, rfl⟩
      cases ho
      rw [hparent] at hp
      cases hp
    case some parent =>
      obtain ⟨l, hl, hrun⟩ := linking_ok h
      exact .inr ⟨origin, parent, l, rfl, hparent, hl, hrun⟩

theorem initSource_ok (h : initSource plan chain run = .ok ⟨⟩ run') :
    (run' = run ∧ ∀ source relation, chain.source = some source →
        (plan.tree.get? chain.root).bind Command.relation = some relation →
        relation.isMany = false) ∨
      ∃ source relation, chain.source = some source ∧
        (plan.tree.get? chain.root).bind Command.relation = some relation ∧
        relation.isMany = true ∧
        run' = { run with
          store := (run.setOf source).foldl (·.initMany · relation.property) run.store } := by
  unfold initSource at h
  cases hsource : chain.source <;> rw [hsource] at h
  case none => exact .inl ⟨(step_pure_ok h).2.symm, fun _ _ hs => nomatch hs⟩
  case some source =>
    cases hrelation : (plan.tree.get? chain.root).bind Command.relation <;> rw [hrelation] at h
    case none => exact .inl ⟨(step_pure_ok h).2.symm, fun _ _ _ hr => nomatch hr⟩
    case some relation =>
      dsimp only at h
      cases hmany : relation.isMany <;> rw [hmany] at h
      case false =>
        refine .inl ⟨(step_pure_ok h).2.symm, fun _ r _ hr => ?_⟩
        cases hr
        exact hmany
      case true => exact .inr ⟨source, relation, rfl, rfl, hmany, (step_modify_ok h).symm⟩

theorem initSource_total (plan : Plan) (chain : Chain) (run : Run) :
    ∃ run', initSource plan chain run = .ok ⟨⟩ run' := by
  unfold initSource
  cases chain.source with
  | none => exact ⟨run, rfl⟩
  | some s =>
    cases (plan.tree.get? chain.root).bind Command.relation with
    | none => exact ⟨run, rfl⟩
    | some r => cases h : r.isMany <;> exact ⟨_, by simp only [h]; rfl⟩

/-! ## One chain -/

theorem hydrate_ok (h : hydrate plan chain rows run = .ok ⟨⟩ run') :
    ∃ rows₁ run₁ rows₂ run₂ run₃,
      loadSource plan chain rows run = .ok rows₁ run₁ ∧
      (chain.commands.filterMap plan.tree.get?).foldlM loadSet rows₁ run₁ = .ok rows₂ run₂ ∧
      (chain.commands.filterMap plan.tree.get?).forM (linkSet plan rows₂) run₂ = .ok ⟨⟩ run₃ ∧
      initSource plan chain run₃ = .ok ⟨⟩ run' := by
  unfold hydrate at h
  obtain ⟨rows₁, run₁, hsource, h⟩ := step_bind_ok h
  obtain ⟨rows₂, run₂, hsets, h⟩ := step_bind_ok h
  obtain ⟨⟨⟩, run₃, hlinks, h⟩ := step_bind_ok h
  exact ⟨rows₁, run₁, rows₂, run₂, run₃, hsource, hsets, hlinks, h⟩

theorem commandOf_ok {id : Nat} {command : Command} (h : commandOf plan id = .ok command) :
    plan.tree.get? id = some command := by
  unfold commandOf at h
  split at h
  · rename_i hget; cases h; exact hget
  · cases h

theorem queryFor_ok {query : Option Sql.Select} (h : queryFor plan chain run = .ok query run') :
    run' = run ∧
      ((chain.source = none ∧ query = some chain.query) ∨
        ∃ id, chain.source = some id ∧
          ((run.setOf id = [] ∧ query = none) ∨
            (run.setOf id ≠ [] ∧ ∃ source condition, plan.tree.get? id = some source ∧
              keyCondition source (run.setOf id) run.store = .ok condition ∧
              query = some (chain.query.restrict condition)))) := by
  unfold queryFor at h
  cases hid : chain.source <;> rw [hid] at h
  case none =>
    obtain ⟨rfl, rfl⟩ := step_pure_ok h
    exact ⟨rfl, .inl ⟨rfl, rfl⟩⟩
  case some id =>
    obtain ⟨run₁, run₂, hget, h⟩ := step_bind_ok h
    obtain ⟨rfl, rfl⟩ := step_get_ok hget
    dsimp only at h
    cases hset : run.setOf id <;> rw [hset] at h
    case nil =>
      obtain ⟨rfl, rfl⟩ := step_pure_ok h
      exact ⟨rfl, .inr ⟨id, rfl, .inl ⟨hset, rfl⟩⟩⟩
    case cons object objects =>
      obtain ⟨source, run₁, hlift, h⟩ := step_bind_ok h
      obtain ⟨hsource, rfl⟩ := step_lift_ok hlift
      obtain ⟨condition, run₁, hlift', h⟩ := step_bind_ok h
      obtain ⟨hcondition, rfl⟩ := step_lift_ok hlift'
      obtain ⟨rfl, rfl⟩ := step_pure_ok h
      rw [← hset] at hcondition
      exact ⟨rfl, .inr ⟨id, rfl, .inr ⟨by rw [hset]; exact List.cons_ne_nil _ _, source, condition,
        commandOf_ok hsource, hcondition, rfl⟩⟩⟩

theorem send_ok {executor : Executor} {statement : Sql.Statement}
    (h : send executor statement run = .ok rows run') :
    executor (run.sent ++ [statement]) = .ok rows ∧
      run' = { run with sent := run.sent ++ [statement] } := by
  unfold send at h
  obtain ⟨⟨⟩, run₁, hmodify, h⟩ := step_bind_ok h
  have hrun := step_modify_ok hmodify
  obtain ⟨run₂, run₃, hget, h⟩ := step_bind_ok h
  obtain ⟨rfl, rfl⟩ := step_get_ok hget
  obtain ⟨hrows, rfl⟩ := step_lift_ok h
  subst hrun
  refine ⟨?_, rfl⟩
  cases hanswer : executor (run.sent ++ [statement]) with
  | ok answer => rw [hanswer] at hrows; exact hrows
  | error e => rw [hanswer] at hrows; cases hrows

theorem runChain_ok {executor : Executor} (h : runChain executor plan chain run = .ok ⟨⟩ run') :
    (queryFor plan chain run = .ok none run ∧ run' = run) ∨
      ∃ query rows, queryFor plan chain run = .ok (some query) run ∧
        executor (run.sent ++ [query.build plan.settings.dialect]) = .ok rows ∧
        hydrate plan chain rows
          { run with sent := run.sent ++ [query.build plan.settings.dialect] } = .ok ⟨⟩ run' := by
  unfold runChain at h
  obtain ⟨query, run₁, hquery, h⟩ := step_bind_ok h
  obtain ⟨rfl, -⟩ := queryFor_ok hquery
  cases query with
  | none =>
    obtain ⟨-, rfl⟩ := step_pure_ok h
    exact .inl ⟨hquery, rfl⟩
  | some query =>
    obtain ⟨rows, run₂, hsend, h⟩ := step_bind_ok h
    obtain ⟨hrows, rfl⟩ := send_ok hsend
    exact .inr ⟨query, rows, hquery, hrows, h⟩

theorem execute_ok {executor : Executor} {out : Output}
    (h : (plan.execute executor).result = .ok out) :
    ∃ run, plan.chains.forM (runChain executor plan) (before plan.tree) = .ok ⟨⟩ run ∧
      out.store = run.store ∧ out.sets = resultSets plan.tree run.sets := by
  unfold Plan.execute at h
  split at h
  · rename_i run hrun
    cases h
    exact ⟨run, hrun, rfl, rfl⟩
  · cases h

end Run

end GraphLoad
