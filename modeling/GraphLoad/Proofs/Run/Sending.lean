/-
Which statements a run sends. Main statement: whatever the executor is, a run sends the statements of
exactly those chains that start anew or whose source set holds objects when they are reached, each
once and in the order of the plan, up to the first one that fails; a run that ends has left every set
as its own chain filled it, and the sets of chains that sent nothing are empty.
-/
import GraphLoad.Proofs.Run.Footprint
import GraphLoad.Proofs.Run.Supply

namespace GraphLoad

open Sql

/-! ## Errors leave what was sent -/

/-- Whether as much was sent in one run as in another. -/
def Run.SentAlike (run run' : Run) : Prop := run'.sent = run.sent

/-- A step that changes nothing of what was sent, whichever way it ends. -/
def Run.Silent {α : Type} (x : Running α) : Prop := Moves SentAlike x

namespace Run

variable {plan : Plan} {chain : Chain} {rows : List Row} {run run' : Run} {executor : Executor}
  {t : CommandTree} {e : LoadError}

theorem SentAlike.refl (run : Run) : SentAlike run run := rfl

theorem SentAlike.trans {run₁ run₂ run₃ : Run} (h : SentAlike run₁ run₂)
    (h' : SentAlike run₂ run₃) : SentAlike run₁ run₃ := Eq.trans h' h

theorem Silent.bind {α β : Type} {x : Running α} {f : α → Running β} (hx : Silent x)
    (hf : ∀ a, Silent (f a)) : Silent (x >>= f) :=
  Moves.bind .trans hx hf

theorem silent_pure {α : Type} (a : α) : Silent (pure a : Running α) := fun _ => rfl

theorem silent_loadAlias (e : Entity) (aliasName : String) (rows : List Row) :
    Silent (loadAlias e aliasName rows) := by
  intro run
  unfold loadAlias
  dsimp only
  split <;> exact rfl

theorem silent_loadSource (plan : Plan) (chain : Chain) (rows : List Row) :
    Silent (loadSource plan chain rows) := by
  unfold loadSource
  split
  · exact silent_pure _
  · exact (silent_loadAlias _ _ _).bind fun _ => silent_pure _

theorem silent_loadSet (rows : List Row) (c : Command) : Silent (loadSet rows c) :=
  (silent_loadAlias _ _ _).bind fun _ => Silent.bind (fun _ => rfl) fun _ => silent_pure _

theorem silent_linkSet (plan : Plan) (rows : List Row) (c : Command) :
    Silent (linkSet plan rows c) := by
  unfold linkSet
  split
  · exact silent_pure _
  · split
    · exact silent_pure _
    · intro run
      unfold linking
      split <;> exact rfl

/-- Hydration sends nothing, also when it fails. -/
theorem silent_hydrate (plan : Plan) (chain : Chain) (rows : List Row) :
    Silent (hydrate plan chain rows) := by
  unfold hydrate
  refine (silent_loadSource plan chain rows).bind fun filled =>
    Silent.bind (Moves.foldlM .refl .trans (fun rows c _ => silent_loadSet rows c) filled) fun linked =>
      Silent.bind (Moves.forM .refl .trans fun c _ => silent_linkSet plan linked c) fun _ run => ?_
  obtain ⟨run', hinit⟩ := initSource_total plan chain run
  rw [hinit]
  rcases initSource_ok hinit with ⟨rfl, -⟩ | ⟨_, _, -, -, -, rfl⟩ <;> exact rfl

/-! ## Chains that ask -/

/-- Whether a chain has something to ask for: it starts anew, or there are objects in the set that it
starts from. -/
def Asks (run : Run) (chain : Chain) : Prop := ∀ s, chain.source = some s → run.setOf s ≠ []

theorem asks_iff {query : Option Select} (h : queryFor plan chain run = .ok query run) :
    run.Asks chain ↔ query.isSome = true := by
  unfold Asks
  obtain ⟨-, ⟨hsource, rfl⟩ | ⟨s, hsource, ⟨hempty, rfl⟩ | ⟨hne, _, _, -, -, rfl⟩⟩⟩ := queryFor_ok h
  · simp [hsource]
  · simp [hsource, hempty]
  · simp [hsource, hne]

/-- How a chain fails whose statement was sent: the statement is not answered, or its rows cannot be
hydrated. An error of the executor keeps what it says, and is given the statement if it names none. -/
def Fails (executor : Executor) (plan : Plan) (chain : Chain) (run : Run) (statement : Statement)
    (e : LoadError) : Prop :=
  (∃ e₀, executor (run.sent ++ [statement]) = .error e₀ ∧ e.code = e₀.code ∧
    e.message = e₀.message ∧ e.cause = e₀.cause ∧
    e.context = { e₀.context with sql := some (e₀.context.sql.getD statement.text) }) ∨
  ∃ rows run', executor (run.sent ++ [statement]) = .ok rows ∧
    hydrate plan chain rows { run with sent := run.sent ++ [statement] } = .error e run'

/-- Running a chain that asks is asking the executor and hydrating the rows. -/
theorem runChain_of_query {query : Select} (hquery : queryFor plan chain run = .ok (some query) run) :
    runChain executor plan chain run =
      match executor (run.sent ++ [query.build plan.settings.dialect]) with
      | .error e₀ => .error (e₀.withMissingSql (query.build plan.settings.dialect).text)
          { run with sent := run.sent ++ [query.build plan.settings.dialect] }
      | .ok rows => hydrate plan chain rows
          { run with sent := run.sent ++ [query.build plan.settings.dialect] } := by
  unfold runChain
  rw [step_bind_of_ok hquery]
  dsimp only
  generalize query.build plan.settings.dialect = statement
  -- the statement is among those sent before the executor is asked
  have hsend : send executor statement run =
      (lift ((executor (run.sent ++ [statement])).mapError (·.withMissingSql statement.text)) :
        Running (List Row)) { run with sent := run.sent ++ [statement] } := rfl
  cases hanswer : executor (run.sent ++ [statement]) with
  | error e₀ =>
    have hfailed : send executor statement run = .error (e₀.withMissingSql statement.text)
        { run with sent := run.sent ++ [statement] } := by
      rw [hsend, hanswer]
      rfl
    rw [step_bind_of_error hfailed]
  | ok rows =>
    have hanswered : send executor statement run =
        .ok rows { run with sent := run.sent ++ [statement] } := by
      rw [hsend, hanswer]
      rfl
    rw [step_bind_of_ok hanswered]

theorem eq_withMissingSql_iff {e e₀ : LoadError} {sql : String} : e = e₀.withMissingSql sql ↔
    e.code = e₀.code ∧ e.message = e₀.message ∧ e.cause = e₀.cause ∧
      e.context = { e₀.context with sql := some (e₀.context.sql.getD sql) } := by
  unfold LoadError.withMissingSql
  obtain ⟨code, message, context, cause⟩ := e
  obtain ⟨code₀, message₀, ⟨operation, entity, field, given, suggestions, help⟩, cause₀⟩ := e₀
  cases given <;> simp [LoadError.withSql, and_comm, and_left_comm]

/-- A chain that asks fails as it may, with its statement the last one sent. -/
theorem runChain_error_iff {query : Select} (hquery : queryFor plan chain run = .ok (some query) run) :
    Fails executor plan chain run (query.build plan.settings.dialect) e ↔
      ∃ run', runChain executor plan chain run = .error e run' ∧
        run'.sent = run.sent ++ [query.build plan.settings.dialect] := by
  rw [runChain_of_query hquery]
  unfold Fails
  generalize query.build plan.settings.dialect = statement
  cases hanswer : executor (run.sent ++ [statement]) with
  | error e₀ =>
    simp only [Except.error.injEq, exists_eq_left', reduceCtorEq, false_and, exists_false, or_false,
      ← eq_withMissingSql_iff]
    constructor
    · rintro rfl
      exact ⟨_, rfl, rfl⟩
    · rintro ⟨run', h, -⟩
      cases h
      rfl
  | ok rows =>
    simp only [reduceCtorEq, false_and, exists_false, false_or, Except.ok.injEq]
    constructor
    · rintro ⟨_, run', rfl, h⟩
      exact ⟨run', h, (silent_hydrate plan chain rows _).error h⟩
    · rintro ⟨run', h, -⟩
      exact ⟨rows, run', rfl, h⟩

/-- Only a chain that asks can fail. -/
theorem asks_of_error (hquery : ∃ query, queryFor plan chain run = .ok query run)
    (h : runChain executor plan chain run = .error e run') :
    ∃ query, queryFor plan chain run = .ok (some query) run ∧
      run'.sent = run.sent ++ [query.build plan.settings.dialect] := by
  obtain ⟨query, hquery⟩ := hquery
  cases query with
  | none =>
    unfold runChain at h
    rw [step_bind_of_ok hquery] at h
    cases h
  | some query =>
    refine ⟨query, hquery, ?_⟩
    rw [runChain_of_query hquery] at h
    split at h
    · cases h
      rfl
    · exact (silent_hydrate plan chain _ _).error h

/-! ## Statements one after the other -/

/-- The statements of the chains that are run from a run on, each with its chain. -/
def statements (executor : Executor) (plan : Plan) : List Chain → Run → List (Chain × Statement)
  | [], _ => []
  | chain :: rest, run =>
    match queryFor plan chain run, runChain executor plan chain run with
    | .ok (some query) _, .ok _ run' =>
      (chain, query.build plan.settings.dialect) :: statements executor plan rest run'
    | .ok (some query) _, .error .. => [(chain, query.build plan.settings.dialect)]
    | .ok none _, .ok _ run' => statements executor plan rest run'
    | _, _ => []

theorem statements_sublist (executor : Executor) (plan : Plan) (chains : List Chain) :
    ∀ run, ((statements executor plan chains run).map Prod.fst).Sublist chains := by
  induction chains with
  | nil => exact fun _ => .slnil
  | cons chain rest ih =>
    intro run
    unfold statements
    split
    · exact (ih _).cons_cons chain
    · exact (List.nil_sublist rest).cons_cons chain
    · exact (ih _).cons chain
    · exact List.nil_sublist _

/-- A statement is sent for a chain that is reached, if it has something to ask for. -/
theorem mem_statements {chains : List Chain} {a : Chain × Statement} :
    ∀ {run : Run}, a ∈ statements executor plan chains run ↔
      ∃ pre post r query, chains = pre ++ a.1 :: post ∧
        pre.forM (runChain executor plan) run = .ok ⟨⟩ r ∧
        queryFor plan a.1 r = .ok (some query) r ∧ a.2 = query.build plan.settings.dialect := by
  induction chains with
  | nil => simp [statements]
  | cons chain rest ih =>
    intro run
    constructor
    · intro ha
      -- a statement of a later chain is sent behind this one
      have hlater : ∀ {run'}, runChain executor plan chain run = .ok ⟨⟩ run' →
          a ∈ statements executor plan rest run' → ∃ pre post r query, chain :: rest = pre ++ a.1 :: post ∧
            pre.forM (runChain executor plan) run = .ok ⟨⟩ r ∧
            queryFor plan a.1 r = .ok (some query) r ∧ a.2 = query.build plan.settings.dialect := by
        intro run' hran hmem
        obtain ⟨pre, post, r, query, rfl, hpre, hquery, hstatement⟩ := ih.1 hmem
        exact ⟨chain :: pre, post, r, query, rfl, (step_bind_of_ok hran _).trans hpre, hquery,
          hstatement⟩
      have hfirst : ∀ {query run'}, queryFor plan chain run = .ok (some query) run' →
          a = (chain, query.build plan.settings.dialect) → ∃ pre post r query,
            chain :: rest = pre ++ a.1 :: post ∧
            pre.forM (runChain executor plan) run = .ok ⟨⟩ r ∧
            queryFor plan a.1 r = .ok (some query) r ∧ a.2 = query.build plan.settings.dialect := by
        rintro query run' hquery rfl
        have hsame := (queryFor_ok hquery).1
        subst hsame
        exact ⟨[], rest, run', query, rfl, rfl, hquery, rfl⟩
      unfold statements at ha
      split at ha
      · rename_i query _ _ run' hquery hran
        rcases List.mem_cons.1 ha with heq | ha
        · exact hfirst hquery heq
        · exact hlater hran ha
      · rename_i query _ _ _ hquery _
        exact hfirst hquery (List.mem_singleton.1 ha)
      · rename_i run' _ hran
        exact hlater hran ha
      · cases ha
    · rintro ⟨pre, post, r, query, hsplit, hpre, hquery, hstatement⟩
      cases pre with
      | nil =>
        cases hsplit
        cases hpre
        have ha : a = (a.1, query.build plan.settings.dialect) := by rw [← hstatement]
        unfold statements
        rw [hquery]
        cases runChain executor plan a.1 run with
        | ok _ run' => exact ha ▸ List.mem_cons_self ..
        | error e run' => exact ha ▸ List.mem_cons_self ..
      | cons first pre =>
        cases hsplit
        change (runChain executor plan chain >>= fun _ => pre.forM (runChain executor plan)) run = _
          at hpre
        obtain ⟨⟨⟩, run', hran, hpre⟩ := step_bind_ok hpre
        have hmem := ih.2 ⟨pre, post, r, query, rfl, hpre, hquery, hstatement⟩
        unfold statements
        rcases runChain_ok hran with ⟨hnone, -⟩ | ⟨own, _, hown, -, -⟩
        · rw [hnone, hran]
          exact hmem
        · rw [hown, hran]
          exact List.mem_cons_of_mem _ hmem

/-- What is sent is those statements, whether the run ends or fails. -/
theorem sent_eq (executor : Executor) (plan : Plan) (chains : List Chain) (run : Run)
    (hquery : ∀ pre chain post, chains = pre ++ chain :: post → ∀ r,
      pre.forM (runChain executor plan) run = .ok ⟨⟩ r → ∃ query, queryFor plan chain r = .ok query r) :
    Ends (fun _ run' => run'.sent = run.sent ++ (statements executor plan chains run).map Prod.snd)
      (fun _ run' => run'.sent = run.sent ++ (statements executor plan chains run).map Prod.snd)
      (chains.forM (runChain executor plan) run) := by
  induction chains generalizing run with
  | nil =>
    show run.sent = run.sent ++ []
    rw [List.append_nil]
  | cons chain rest ih =>
    obtain ⟨query, hown⟩ := hquery [] chain rest rfl run rfl
    show Ends _ _ ((runChain executor plan chain >>= fun _ => rest.forM (runChain executor plan)) run)
    unfold statements
    cases hran : runChain executor plan chain run with
    | error e run' =>
      obtain ⟨own, hown, hsent⟩ := asks_of_error ⟨query, hown⟩ hran
      rw [step_bind_of_error hran, hown]
      exact hsent
    | ok _ run' =>
      have hrest := ih run' fun pre d post hsplit r hpre =>
        hquery (chain :: pre) d post (by rw [hsplit]; rfl) r ((step_bind_of_ok hran _).trans hpre)
      rw [step_bind_of_ok hran]
      rcases runChain_ok hran with ⟨hnone, rfl⟩ | ⟨own, rows, hown, -, hydrated⟩
      · rw [hnone]
        exact hrest
      · rw [hown]
        have hsent : run'.sent = run.sent ++ [own.build plan.settings.dialect] := hydrate_sent hydrated
        dsimp only
        rw [hsent] at hrest
        rw [List.map_cons, List.append_cons]
        exact hrest

end Run

/-! ## Whole runs -/

namespace Plan

variable {P : Schema → Prop} {t : CommandTree} {cfg : Settings} {s s' : Schema} {plan : Plan}
  {executor : Executor} {chain : Chain} {run : Run} {e : LoadError}

/-- What a run of a plan sends, how it fails and what it leaves in its sets. -/
structure Cascades (plan : Plan) (executor : Executor) : Prop where
  sent : ∃ asked : List (Chain × Statement), (plan.execute executor).sent = asked.map Prod.snd ∧
    (asked.map Prod.fst).Sublist plan.chains ∧ (asked.map fun a => a.1.root).Nodup ∧
    (∀ chain, chain ∈ asked.map Prod.fst ↔ ∃ run, plan.Reaches executor chain run ∧ run.Asks chain) ∧
    ∀ a ∈ asked, ∃ run query, plan.Reaches executor a.1 run ∧
      Run.queryFor plan a.1 run = .ok (some query) run ∧ a.2 = query.build plan.settings.dialect
  stops : ∀ chain run query e, plan.Reaches executor chain run →
    Run.queryFor plan chain run = .ok (some query) run →
    Run.Fails executor plan chain run (query.build plan.settings.dialect) e →
    (plan.execute executor).result = .error e ∧
      (plan.execute executor).sent = run.sent ++ [query.build plan.settings.dialect]
  failed : ∀ e, (plan.execute executor).result = .error e → ∃ chain run query,
    plan.Reaches executor chain run ∧ Run.queryFor plan chain run = .ok (some query) run ∧
      Run.Fails executor plan chain run (query.build plan.settings.dialect) e
  loaded : ∀ out, (plan.execute executor).result = .ok out → ∀ i < plan.tree.size,
    ∃ chain run set, plan.Reaches executor chain run ∧ i ∈ chain.commands ∧ run.setOf i = [] ∧
      out.sets[i]? = some set ∧ ((¬ run.Asks chain ∧ set.objects = []) ∨
        ∃ query rows run', run.Asks chain ∧ Run.queryFor plan chain run = .ok (some query) run ∧
          executor (run.sent ++ [query.build plan.settings.dialect]) = .ok rows ∧
          Run.hydrate plan chain rows
            { run with sent := run.sent ++ [query.build plan.settings.dialect] } = .ok ⟨⟩ run' ∧
          set.objects = run'.setOf i)

/-- A chain that is reached always finds out which query to send. -/
theorem Reaches.query (h : plan.Reaches executor chain run) (ht : t.Grown) (hmade : Made P t cfg plan) :
    ∃ query, Run.queryFor plan chain run = .ok query run := by
  obtain ⟨hchain, hstocked, -⟩ := h.keeps ht hmade
  exact Run.queryFor_total ht.ordered hmade.tree (hmade.shape_mem hchain) hstocked

theorem execute_sent (ht : t.Grown) (hmade : Made P t cfg plan) : (plan.execute executor).sent =
    (Run.statements executor plan plan.chains (.before plan.tree)).map Prod.snd := by
  have hends := Run.sent_eq executor plan plan.chains (.before plan.tree)
    fun pre chain post hsplit r hpre => Reaches.query ⟨pre, post, hsplit, hpre⟩ ht hmade
  unfold execute
  cases hrun : plan.chains.forM (Run.runChain executor plan) (.before plan.tree) with
  | ok _ run => exact hends.ok hrun
  | error e run => exact hends.error hrun

/-- The statements that are sent are those of the chains that are reached and ask. -/
theorem mem_execute_statements {a : Chain × Statement} :
    a ∈ Run.statements executor plan plan.chains (.before plan.tree) ↔
      ∃ run query, plan.Reaches executor a.1 run ∧
        Run.queryFor plan a.1 run = .ok (some query) run ∧
        a.2 = query.build plan.settings.dialect := by
  rw [Run.mem_statements]
  constructor
  · rintro ⟨pre, post, run, query, hsplit, hpre, hquery⟩
    exact ⟨run, query, ⟨pre, post, hsplit, hpre⟩, hquery⟩
  · rintro ⟨run, query, ⟨pre, post, hsplit, hpre⟩, hquery⟩
    exact ⟨pre, post, run, query, hsplit, hpre, hquery⟩

theorem execute_stops {query : Select} (h : plan.Reaches executor chain run)
    (hquery : Run.queryFor plan chain run = .ok (some query) run)
    (hfails : Run.Fails executor plan chain run (query.build plan.settings.dialect) e) :
    (plan.execute executor).result = .error e ∧
      (plan.execute executor).sent = run.sent ++ [query.build plan.settings.dialect] := by
  obtain ⟨pre, post, hsplit, hpre⟩ := h
  obtain ⟨run', hran, hsent⟩ := (Run.runChain_error_iff hquery).1 hfails
  have hrun : plan.chains.forM (Run.runChain executor plan) (.before plan.tree) = .error e run' := by
    rw [hsplit, List.forM_eq_forM, List.forM_append, ← List.forM_eq_forM, step_bind_of_ok hpre]
    exact step_bind_of_error hran _
  unfold execute
  rw [hrun]
  exact ⟨rfl, hsent⟩

theorem execute_failing (ht : t.Grown) (hmade : Made P t cfg plan)
    (herror : (plan.execute executor).result = .error e) : ∃ chain run query,
      plan.Reaches executor chain run ∧ Run.queryFor plan chain run = .ok (some query) run ∧
        Run.Fails executor plan chain run (query.build plan.settings.dialect) e := by
  unfold execute at herror
  split at herror
  · cases herror
  · rename_i e' run' hrun
    cases herror
    obtain ⟨pre, chain, post, run, hsplit, hpre, hran⟩ := forM_split_error hrun
    have hreaches : plan.Reaches executor chain run := ⟨pre, post, hsplit, hpre⟩
    obtain ⟨query, hquery, hsent⟩ := Run.asks_of_error (hreaches.query ht hmade) hran
    exact ⟨chain, run, query, hreaches, hquery, (Run.runChain_error_iff hquery).2 ⟨run', hran, hsent⟩⟩

/-- Whatever the executor is, a run sends the statements of exactly those chains that start anew or
whose source set holds objects when they are reached, in the order of the plan and each once, up to the
first one that fails: nothing is sent after it and its error is the outcome, an error of the executor
as it was but for the statement it is given if it names none. A run that ends has left every set as its
own chain filled it, empty if that chain had nothing to ask for. -/
theorem execute_cascades (ht : t.Grown) (hmake : make t cfg s = .ok plan s') (executor : Executor) :
    plan.Cascades executor := by
  have hmade := made_of_make hmake
  constructor
  case sent =>
    have hsublist := Run.statements_sublist executor plan plan.chains (.before plan.tree)
    refine ⟨Run.statements executor plan plan.chains (.before plan.tree), execute_sent ht hmade,
      hsublist, ?_, fun chain => ?_, fun a ha => mem_execute_statements.1 ha⟩
    · have hroots := CommandTree.nodup_roots ht.ordered
      rw [← hmade.shapes, List.map_map] at hroots
      have hsent := (hsublist.map fun chain : Chain => chain.root).nodup hroots
      rw [List.map_map] at hsent
      exact hsent
    · rw [List.mem_map]
      constructor
      · rintro ⟨a, ha, rfl⟩
        obtain ⟨run, query, hreaches, hquery, -⟩ := mem_execute_statements.1 ha
        exact ⟨run, hreaches, (Run.asks_iff hquery).2 rfl⟩
      · rintro ⟨run, hreaches, hasks⟩
        obtain ⟨query, hquery⟩ := hreaches.query ht hmade
        obtain ⟨query, rfl⟩ := Option.isSome_iff_exists.1 ((Run.asks_iff hquery).1 hasks)
        exact ⟨(chain, query.build plan.settings.dialect),
          mem_execute_statements.2 ⟨run, query, hreaches, hquery, rfl⟩, rfl⟩
  case stops => exact fun chain run query e => execute_stops
  case failed => exact fun e => execute_failing ht hmade
  case loaded =>
    intro out hout i hi
    obtain ⟨run, hrun, -, hsets⟩ := Run.execute_ok hout
    rw [hmade.tree] at hi
    obtain ⟨c, hc⟩ := CommandTree.get?_of_lt hi
    obtain ⟨chain, hchain, hmem⟩ := hmade.exists_chain ht.ordered hi
    obtain ⟨r, r', hreaches, hran, hown, -, -⟩ := hmade.settled ht.ordered hchain hrun
    obtain ⟨hempty, hset⟩ := hown i hmem
    refine ⟨chain, r, _, hreaches, hmem, hempty, by rw [hsets]; exact hmade.set_of_run ht.ordered hrun hc,
      ?_⟩
    dsimp only
    rw [hset]
    rcases Run.runChain_ok hran with ⟨hnone, rfl⟩ | ⟨query, rows, hquery, hrows, hydrated⟩
    · refine .inl ⟨fun hasks => ?_, hempty⟩
      have hsome := (Run.asks_iff hnone).1 hasks
      cases hsome
    · exact .inr ⟨query, rows, r', (Run.asks_iff hquery).2 rfl, hquery, hrows, hydrated, rfl⟩

/-- One author, and no rows for any further statement. -/
def lone : Executor := fun sent =>
  .ok (if sent.length = 1 then [.ofList [("AUTHOR1:id", .int 1), ("AUTHOR1:name", .str "Ann")]] else [])

/-- One author, and then an error that names no statement. -/
def severed : Executor := fun sent =>
  if sent.length = 1 then .ok [.ofList [("AUTHOR1:id", .int 1), ("AUTHOR1:name", .str "Ann")]]
  else .error (.plain .connectionFailed "lost")

/-- Behind books of which there are none, neither of the two further chains is sent; and where the
statement for the books fails, it is the last one, and the error names it. -/
theorem execute_cascades_shelf : shelf.Grown ∧ ∃ plan s' out e,
    make shelf {} { catalog := .ofList [author, book] } = .ok plan s' ∧ plan.chains.length = 4 ∧
      plan.Cascades lone ∧ (plan.execute lone).result = .ok out ∧
      (plan.execute lone).sent.length = 2 ∧
      out.sets.map ResultSet.objects = [[0], [], [], [], [], []] ∧
      plan.Cascades severed ∧ (plan.execute severed).result = .error e ∧
      e.context.sql = ((plan.execute severed).sent[1]?).map Statement.text ∧
      (plan.execute severed).sent.length = 2 := by
  have hmade : ((made? shelf {} { catalog := .ofList [author, book] }).any fun plan =>
      decide (plan.chains.length = 4) && decide ((plan.execute lone).sent.length = 2) &&
      decide ((plan.execute severed).sent.length = 2) &&
      ((plan.execute lone).result.toOption.any fun out =>
        decide (out.sets.map ResultSet.objects = [[0], [], [], [], [], []])) &&
      match (plan.execute severed).result with
      | .ok _ => false
      | .error e => e.context.sql == ((plan.execute severed).sent[1]?).map Statement.text) = true := by
    decide +kernel
  obtain ⟨plan, hsome, hfacts⟩ := (Option.any_eq_true _ _).1 hmade
  simp only [Bool.and_eq_true, decide_eq_true_eq] at hfacts
  obtain ⟨⟨⟨⟨hchains, hlone⟩, hsevered⟩, hloaded⟩, herror⟩ := hfacts
  obtain ⟨out, hout, hsets⟩ := (Option.any_eq_true _ _).1 hloaded
  obtain ⟨s', hmake⟩ := made?_some hsome
  split at herror
  · cases herror
  · rename_i e he
    exact ⟨grown_shelf, plan, s', out, e, hmake, hchains, execute_cascades grown_shelf hmake lone,
      except_toOption_some hout, hlone, of_decide_eq_true hsets,
      execute_cascades grown_shelf hmake severed, he, eq_of_beq herror, hsevered⟩

end Plan

end GraphLoad
