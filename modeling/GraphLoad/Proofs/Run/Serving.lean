/-
Answering a plan from a database. The statements of a plan are found out by running it along with the
database, and each is answered by the rows it denotes. Shown here: every plan is served in this way
over every database.
-/
import GraphLoad.Proofs.Run.Cascade

namespace GraphLoad

open Sql

namespace Plan

/-- The queries that the chains of a plan send from a run on, each answered over a database. -/
def replay (plan : Plan) (db : Database) : List Chain → Run → List Select
  | [], _ => []
  | chain :: rest, run =>
    match Run.queryFor plan chain run with
    | .ok (some query) run =>
      query :: match Run.hydrate plan chain (db.rows query)
          { run with sent := run.sent ++ [query.build plan.settings.dialect] } with
        | .ok _ run => plan.replay db rest run
        | .error .. => []
    | .ok none run => plan.replay db rest run
    | .error .. => []

/-- Answers the statements of a plan in turn, each over a database. -/
def server (plan : Plan) (db : Database) : Executor := fun sent =>
  .ok (((plan.replay db plan.chains (.before plan.tree))[sent.length - 1]?.map db.rows).getD [])

end Plan

namespace Run

variable {plan : Plan} {chain : Chain} {rows rows' : List Row} {run run' : Run}

/-! ## Hydration sends nothing -/

theorem loadAlias_sent {e : Entity} {aliasName : String} {x : List Row × List Nat}
    (h : loadAlias e aliasName rows run = .ok x run') : run'.sent = run.sent := by
  unfold loadAlias at h
  dsimp only at h
  split at h <;> cases h
  rfl

theorem loadSource_sent (h : loadSource plan chain rows run = .ok rows' run') :
    run'.sent = run.sent := by
  unfold loadSource at h
  cases hsource : chain.source.bind plan.tree.get? <;> rw [hsource] at h
  case none => rw [(step_pure_ok h).2]
  case some source =>
    obtain ⟨x, run₁, hload, h⟩ := step_bind_ok h
    rw [← (step_pure_ok h).2, loadAlias_sent hload]

theorem loadSet_sent {c : Command} (h : loadSet rows c run = .ok rows' run') :
    run'.sent = run.sent := by
  unfold loadSet at h
  obtain ⟨x, run₁, hload, h⟩ := step_bind_ok h
  obtain ⟨⟨⟩, run₂, hmodify, h⟩ := step_bind_ok h
  have hsent := loadAlias_sent hload
  rw [← (step_pure_ok h).2, ← step_modify_ok hmodify]
  exact hsent

theorem loadSets_sent {commands : List Command} :
    ∀ {rows : List Row} {run : Run}, commands.foldlM loadSet rows run = .ok rows' run' →
      run'.sent = run.sent := by
  induction commands with
  | nil =>
    intro rows run h
    rw [List.foldlM_nil] at h
    rw [(step_pure_ok h).2]
  | cons c commands ih =>
    intro rows run h
    rw [List.foldlM_cons] at h
    obtain ⟨rows₁, run₁, hfirst, hrest⟩ := step_bind_ok h
    rw [ih hrest, loadSet_sent hfirst]

theorem hydrate_sent (h : hydrate plan chain rows run = .ok ⟨⟩ run') : run'.sent = run.sent := by
  obtain ⟨rows₁, run₁, rows₂, run₂, run₃, hsource, hsets, hlinks, hinit⟩ := hydrate_ok h
  have hlinked : run₃.sent = run₂.sent := by
    refine forM_keeps (P := fun r => r.sent = run₂.sent) (fun c _ r r' hr hlink => ?_) rfl hlinks
    rcases linkSet_ok hlink with ⟨-, rfl⟩ | ⟨_, _, _, -, -, -, -, -, hsent⟩
    · exact hr
    · exact hsent.trans hr
  have hinited : run'.sent = run₃.sent := by
    rcases initSource_ok hinit with ⟨rfl, -⟩ | ⟨_, _, -, -, -, rfl⟩ <;> rfl
  rw [hinited, hlinked, loadSets_sent hsets, loadSource_sent hsource]

end Run

namespace Plan

/-- What the server answers to the next statement after the ones that were sent. -/
theorem server_next {plan : Plan} {db : Database} {queries rest : List Select} {sent : List Statement}
    {query : Select} {statement : Statement}
    (hreplay : plan.replay db plan.chains (.before plan.tree) = queries ++ query :: rest)
    (hlength : queries.length = sent.length) :
    plan.server db (sent ++ [statement]) = .ok (db.rows query) := by
  unfold server
  rw [hreplay, List.length_append, List.length_singleton, Nat.add_sub_cancel, ← hlength,
    List.getElem?_append_right (Nat.le_refl _), Nat.sub_self]
  rfl

/-- A run that is answered by the server has sent the first of the queries of the replay, and the
replay goes on from it. -/
theorem replay_prefix (plan : Plan) (db : Database) {pre : List Chain} {run : Run}
    (h : pre.forM (Run.runChain (plan.server db) plan) (.before plan.tree) = .ok ⟨⟩ run) :
    ∀ post, plan.chains = pre ++ post → ∃ queries : List Select,
      queries.length = run.sent.length ∧
        plan.replay db plan.chains (.before plan.tree) = queries ++ plan.replay db post run := by
  refine forM_builds (P := fun done r => ∀ post, plan.chains = done ++ post →
    ∃ queries : List Select, queries.length = r.sent.length ∧
      plan.replay db plan.chains (.before plan.tree) = queries ++ plan.replay db post r)
    ?step (fun post hpost => ⟨[], rfl, by rw [hpost]; rfl⟩) h
  rintro done chain - - r r' ih hran post hpost
  obtain ⟨queries, hlength, hreplay⟩ := ih (chain :: post) (by rw [hpost, List.append_assoc]; rfl)
  rcases Run.runChain_ok hran with ⟨hquery, rfl⟩ | ⟨query, rows, hquery, hrows, hydrated⟩
  · refine ⟨queries, hlength, ?_⟩
    rw [hreplay, replay, hquery]
  · rw [replay, hquery] at hreplay
    rw [server_next hreplay hlength] at hrows
    cases hrows
    refine ⟨queries ++ [query], ?_, ?_⟩
    · rw [List.length_append, List.length_singleton, Run.hydrate_sent hydrated, List.length_append,
        List.length_singleton, hlength]
    · rw [hreplay, List.append_assoc, List.singleton_append]
      dsimp only
      rw [hydrated]

/-- Every plan is served over every database. -/
theorem serves_server (plan : Plan) (db : Database) : plan.Serves db (plan.server db) := by
  intro pre chain post run query rows hsplit hpre hquery hrows row
  obtain ⟨queries, hlength, hreplay⟩ := replay_prefix plan db hpre (chain :: post) hsplit
  rw [replay, hquery] at hreplay
  rw [server_next hreplay hlength] at hrows
  cases hrows
  exact Iff.rfl

end Plan

end GraphLoad
