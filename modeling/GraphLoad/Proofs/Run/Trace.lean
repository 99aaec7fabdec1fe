/-
The statements of a run with the rows they were answered, and what those rows ask for. Whatever an
executor answers, a run that comes to its end has written what its rows ask for, in order, and nothing
else; one that fails was not answered as it had to be, or two of the writes asked for disagree.
-/
import GraphLoad.Proofs.Run.Filling
import GraphLoad.Proofs.Run.Splitting

namespace GraphLoad

/-- A statement that was sent for a chain: the rows it was answered, filled with their objects. -/
structure Answer where
  chain : Chain
  rows : List Row

namespace Run

/-- The first part of running a chain: what its statement is answered, with objects, unless it sends
none. -/
def fetch (executor : Executor) (plan : Plan) (chain : Chain) : Running (Option (List Row)) := do
  match ← queryFor plan chain with
  | none => return none
  | some query =>
    let rows ← send executor (query.build plan.settings.dialect)
    return some (← fill plan chain rows)

/-- The second part: the rows that were answered are linked. -/
def follow (plan : Plan) (chain : Chain) : Option (List Row) → Running Unit
  | none => return
  | some rows => connect plan chain rows

/-- The answers of the chains that are run from a run on. The last of a failed run is there if it
failed in linking it. -/
def answers (executor : Executor) (plan : Plan) : List Chain → Run → List Answer
  | [], _ => []
  | chain :: rest, run =>
    match fetch executor plan chain run with
    | .ok (some rows) run =>
      ⟨chain, rows⟩ :: match connect plan chain rows run with
        | .ok _ run => answers executor plan rest run
        | .error .. => []
    | .ok none run => answers executor plan rest run
    | .error .. => []

end Run

namespace Plan

/-- The links that the rows of a chain ask for between a set and the one it is loaded from. -/
def linksOf (plan : Plan) (rows : List Row) (c : Command) : List Link :=
  match c.origin with
  | none => []
  | some origin =>
    match plan.tree.get? origin.parent with
    | none => []
    | some parent =>
      origin.relation.links parent.aliasName c.aliasName
        (Relation.backProperty (plan.reverse? c.id)) rows

/-- The links that an answer asks for, command by command. -/
def answerLinks (plan : Plan) (answer : Answer) : List Link :=
  (answer.chain.commands.filterMap plan.tree.get?).flatMap (plan.linksOf answer.rows)

/-- The statements of a plan that an executor gets to see, with their answers. -/
def answers (plan : Plan) (executor : Executor) : List Answer :=
  Run.answers executor plan plan.chains (.before plan.tree)

/-- The links that the rows of all statements ask for: by chain as they are run, command and row. -/
def links (plan : Plan) (executor : Executor) : List Link :=
  (plan.answers executor).flatMap plan.answerLinks

/-- The writes to properties for one object that the rows ask for, forward before back in each row. -/
def pointings (plan : Plan) (executor : Executor) : List Pointing :=
  (plan.links executor).flatMap Link.pointings

/-- The additions to collections that the rows ask for. -/
def gatherings (plan : Plan) (executor : Executor) : List Gathering :=
  (plan.links executor).flatMap Link.gatherings

end Plan

namespace Run

variable {executor : Executor} {plan : Plan} {chain : Chain} {t : CommandTree}
  {rows rows' : List Row} {run run' : Run} {links : List Link}

/-! ## Running a chain in two parts -/

theorem runChain_eq :
    runChain executor plan chain = fetch executor plan chain >>= follow plan chain := by
  unfold runChain fetch
  rw [bind_assoc]
  congr 1
  funext query
  cases query with
  | none => rfl
  | some query =>
    simp only [bind_assoc, pure_bind, hydrate_eq]
    rfl

theorem runChain_of_fetch {found : Option (List Row)}
    (h : fetch executor plan chain run = .ok found run') :
    runChain executor plan chain run = follow plan chain found run' := by
  rw [runChain_eq, step_bind_of_ok h]

theorem runChain_of_unfetched {e : LoadError}
    (h : fetch executor plan chain run = .error e run') :
    runChain executor plan chain run = .error e run' := by
  rw [runChain_eq, step_bind_of_error h]

theorem fetch_ok {found : Option (List Row)} (h : fetch executor plan chain run = .ok found run') :
    (found = none ∧ run' = run) ∨
      ∃ query rows filled, queryFor plan chain run = .ok (some query) run ∧ found = some filled ∧
        executor (run.sent ++ [query.build plan.settings.dialect]) = .ok rows ∧
        fill plan chain rows
          { run with sent := run.sent ++ [query.build plan.settings.dialect] } = .ok filled run' := by
  unfold fetch at h
  obtain ⟨query, run₁, hquery, h⟩ := step_bind_ok h
  obtain ⟨rfl, -⟩ := queryFor_ok hquery
  cases query with
  | none =>
    obtain ⟨rfl, rfl⟩ := step_pure_ok h
    exact .inl ⟨rfl, rfl⟩
  | some query =>
    obtain ⟨rows, run₂, hsend, h⟩ := step_bind_ok h
    obtain ⟨hrows, rfl⟩ := send_ok hsend
    obtain ⟨filled, run₃, hfill, h⟩ := step_bind_ok h
    obtain ⟨rfl, rfl⟩ := step_pure_ok h
    exact .inr ⟨query, rows, filled, hquery, rfl, hrows, hfill⟩

/-! ## What a run has written -/

/-- A run that has written what some links ask for, and nothing else. -/
def Wrote (plan : Plan) (links : List Link) (run : Run) : Prop :=
  ({ store := run.store } : Links).Wrote plan.singles plan.collections plan.settings.conflicts
    run.warnings (links.flatMap Link.gatherings) (links.flatMap Link.pointings)

/-- What an error of a run says of the links asked for. -/
def TellsOf (plan : Plan) (links : List Link) (e : LoadError) : Prop :=
  e.TellsOf plan.singles plan.collections (links.flatMap Link.pointings)

theorem wrote_before (plan : Plan) (t : CommandTree) : Wrote plan [] (before t) :=
  ⟨ObjectStore.wrote_empty, fun _ => rfl, fun _ _ => rfl⟩

theorem TellsOf.append {e : LoadError} (h : TellsOf plan links e) (others : List Link) :
    TellsOf plan (links ++ others) e := by
  unfold TellsOf
  rw [List.flatMap_append]
  exact LoadError.TellsOf.append h _

theorem Wrote.quiet (h : Wrote plan links run) (hquiet : Quiet run run') :
    Wrote plan links run' := by
  refine ⟨h.store.grow hquiet.grows hquiet.related, fun hparted => ?_, h.strict⟩
  rw [hquiet.warnings, h.warnings hparted, h.store.map_warning hquiet.grows]

/-- The properties that the relationship of a command writes belong to the plan. -/
theorem within_plan (htree : plan.tree = t) {i : Nat} {c : Command} {o : Origin}
    (hc : t.get? i = some c) (ho : c.origin = some o) :
    o.relation.Within plan.singles plan.collections (Relation.backProperty (plan.reverse? c.id))
      c.entity.name := by
  have hmem : c ∈ plan.tree.commands := by
    rw [htree]
    exact List.mem_of_getElem? hc
  have hrelation : c.relation = some o.relation := by rw [Command.relation, ho, Option.map_some]
  constructor
  · cases hmany : o.relation.isMany with
    | true =>
      refine List.mem_filterMap.2 ⟨c, hmem, ?_⟩
      simp [hrelation, hmany]
    | false =>
      refine List.mem_flatMap.2 ⟨c, hmem, List.mem_append_left _ ?_⟩
      simp [hrelation, hmany]
  · intro b hb
    refine List.mem_flatMap.2 ⟨c, hmem, List.mem_append_right _ ?_⟩
    simp [hb]

theorem linking_ends {step : Linking Unit} {Q : Links → Prop} {E : LoadError → Prop}
    (h : Ends (fun _ l => Q l) (fun e _ => E e) (step { store := run.store })) :
    Ends
      (fun _ run' => ∃ l, Q l ∧
        run' = { run with store := l.store, warnings := run.warnings ++ l.warnings })
      (fun e _ => E e) (linking step run) := by
  unfold linking
  cases hstep : step { store := run.store } with
  | ok _ l => exact ⟨l, h.ok hstep, rfl⟩
  | error e l => exact h.error hstep

/-- Linking the set of a command writes what its rows ask for. -/
theorem linkSet_ends {done : List Command} (ht : t.Ordered) (htree : plan.tree = t)
    (h : Wrote plan links run) (hfilled : Filled t done rows run) {i : Nat} {c : Command}
    (hc : t.get? i = some c) (hdone : c ∈ done)
    (hparent : ∀ o p, c.origin = some o → t.get? o.parent = some p → p ∈ done) :
    Ends
      (fun _ run' => Wrote plan (links ++ plan.linksOf rows c) run' ∧ Filled t done rows run')
      (fun e _ => TellsOf plan (links ++ plan.linksOf rows c) e)
      (linkSet plan rows c run) := by
  unfold linkSet Plan.linksOf
  cases ho : c.origin with
  | none =>
    rw [List.append_nil]
    exact ⟨h, hfilled⟩
  | some o =>
    obtain ⟨-, p, hp, hname⟩ := ht.sources hc ho
    simp only [htree, hp]
    have hends := Relation.link_ends (r := o.relation) (plan.reverse? c.id) h
      (fun row hrow => hname ▸ hfilled.slots p (hparent o p ho hp) row hrow)
      (hfilled.slots c hdone) (within_plan htree hc ho)
    rw [← List.flatMap_append, ← List.flatMap_append] at hends
    refine (linking_ends hends).imp ?_ fun _ _ he => he
    rintro _ run' ⟨l, ⟨hwrote, hext⟩, rfl⟩
    refine ⟨⟨hwrote.store, fun hparted => ?_, hwrote.strict⟩, hfilled.grow hext rfl⟩
    rw [List.append_nil]
    exact hwrote.warnings hparted

/-! ## The source of a chain -/

theorem initMany_foldl_wrote {singles collections : List (String × String)} {gs : List Gathering}
    {ps : List Pointing} {e property : String} (hp : (e, property) ∈ collections) {ids : List Nat} :
    ∀ {s : ObjectStore}, s.Wrote singles collections gs ps → (∀ i ∈ ids, s.IsOf e i) →
      (ids.foldl (·.initMany · property) s).Wrote singles collections gs ps ∧
        s.Extends (ids.foldl (·.initMany · property) s) := by
  induction ids with
  | nil => exact fun h _ => ⟨h, .refl _⟩
  | cons i ids ih =>
    intro s h hids
    have hext : s.Extends (s.initMany i property) :=
      ObjectStore.extends_related s true i property none
    have hfirst := h.collect (hids i (List.mem_cons_self ..)) hp
    obtain ⟨hrest, hext'⟩ := ih hfirst fun j hj => (hids j (List.mem_cons_of_mem _ hj)).extends hext
    exact ⟨hrest, hext.trans hext'⟩

/-- Giving the objects of a source their collections writes nothing that rows could ask for. -/
theorem initSource_ends (ht : t.Ordered) (htree : plan.tree = t)
    (hshape : chain.toChainShape ∈ t.chainsFrom 0) (h : Wrote plan links run)
    (hstocked : Stocked t run) :
    Ends (fun _ run' => Wrote plan links run' ∧ Stocked t run') (fun _ _ => False)
      (initSource plan chain run) := by
  obtain ⟨run', hinit⟩ := initSource_total plan chain run
  rw [hinit]
  rcases initSource_ok hinit with ⟨rfl, -⟩ | ⟨s, r, hs, hr, hmany, rfl⟩
  · exact ⟨h, hstocked⟩
  · rw [htree] at hr
    obtain ⟨root, hroot, hrelation⟩ := Option.bind_eq_some_iff.1 hr
    obtain ⟨o, ho, rfl⟩ := Option.map_eq_some_iff.1 hrelation
    obtain ⟨-, p, hp, hname⟩ := ht.sources hroot ho
    have hparent : s = o.parent := by
      have hsource := CommandTree.source_eq hshape hroot
      rw [hs, Command.parent, ho] at hsource
      exact Option.some.inj hsource
    have hwithin := (within_plan htree hroot ho).1
    rw [if_pos hmany, ← hname] at hwithin
    obtain ⟨hwrote, hext⟩ := initMany_foldl_wrote hwithin h.store
      fun i hi => hstocked o.parent p hp i (hparent ▸ hi)
    refine ⟨⟨hwrote, fun hparted => ?_, h.strict⟩, hstocked.grow hext rfl⟩
    rw [h.store.map_warning hext]
    exact h.warnings hparted

/-! ## One chain -/

/-- Linking the rows of a chain writes what they ask for, command by command. -/
theorem connect_ends (ht : t.Ordered) (htree : plan.tree = t)
    (hshape : chain.toChainShape ∈ t.chainsFrom 0) (h : Wrote plan links run)
    (hfilled : Filled t (slotsOf t chain.toChainShape) rows run) :
    Ends
      (fun _ run' => Wrote plan (links ++ plan.answerLinks ⟨chain, rows⟩) run' ∧ Stocked t run')
      (fun e _ => TellsOf plan (links ++ plan.answerLinks ⟨chain, rows⟩) e)
      (connect plan chain rows run) := by
  unfold connect
  rw [htree]
  have hlinks : plan.answerLinks ⟨chain, rows⟩ =
      (chain.commands.filterMap t.get?).flatMap (plan.linksOf rows) := by
    rw [Plan.answerLinks, htree]
  rw [hlinks]
  -- over the sets that are linked so far, their links are written and every slot stays filled
  refine Ends.bind ((forM_ends
    (P := fun pre r => Wrote plan (links ++ pre.flatMap (plan.linksOf rows)) r ∧
      Filled t (slotsOf t chain.toChainShape) rows r)
    (E := fun pre e _ => TellsOf plan (links ++ pre.flatMap (plan.linksOf rows)) e)
    ?step ?start).imp (fun _ _ h => h) ?failed) ?init
  case start =>
    rw [List.flatMap_nil, List.append_nil]
    exact ⟨h, hfilled⟩
  case step =>
    rintro pre c post hsplit r ⟨hwrote, hslots⟩
    have hmem : c ∈ chain.commands.filterMap t.get? :=
      hsplit ▸ List.mem_append_right _ (List.mem_cons_self ..)
    obtain ⟨i, -, hget⟩ := List.mem_filterMap.1 hmem
    have hsnoc : (pre ++ [c]).flatMap (plan.linksOf rows) =
        pre.flatMap (plan.linksOf rows) ++ plan.linksOf rows c := by simp
    rw [hsnoc, ← List.append_assoc]
    exact linkSet_ends ht htree hwrote hslots hget (mem_slotsOf_commands hmem)
      fun o p ho hp => mem_slotsOf_parent ht hshape hmem ho hp
  case failed =>
    rintro e r ⟨pre, post, hsplit, he⟩
    -- two writes that disagree do so whatever the sets after them ask for
    rw [hsplit, List.flatMap_append, ← List.append_assoc]
    exact he.append _
  case init =>
    rintro ⟨⟩ r ⟨hwrote, hslots⟩
    exact (initSource_ends ht htree hshape hwrote hslots.stocked).imp (fun _ _ h => h)
      fun _ _ h => h.elim

/-- Filling the rows of a chain writes nothing. -/
theorem fetch_wrote (ht : t.Grown) (htree : plan.tree = t)
    (hshape : chain.toChainShape ∈ t.chainsFrom 0) (h : Wrote plan links run)
    (hstocked : Stocked t run)
    (hfetch : fetch executor plan chain run = .ok (some rows) run') :
    Wrote plan links run' ∧ Filled t (slotsOf t chain.toChainShape) rows run' := by
  rcases fetch_ok hfetch with ⟨hnone, -⟩ | ⟨query, answered, filled, -, heq, -, hfill⟩
  · cases hnone
  · cases heq
    have hsent : Stocked t { run with
        sent := run.sent ++ [query.build plan.settings.dialect] } := hstocked
    obtain ⟨hfilled, hquiet⟩ := Filled.fill ht htree hshape ⟨fun _ hc => (nomatch hc), hsent⟩ hfill
    have hwrote : Wrote plan links { run with
        sent := run.sent ++ [query.build plan.settings.dialect] } := h
    exact ⟨hwrote.quiet hquiet, hfilled⟩

/-! ## The whole run -/

/-- Where a run stops because a chain does not get its rows. -/
def Unanswered (executor : Executor) (plan : Plan) (t : CommandTree) (chains : List Chain)
    (run : Run) (e : LoadError) : Prop :=
  ∃ pre chain post run₁ run₂, chains = pre ++ chain :: post ∧
    pre.forM (runChain executor plan) run = .ok ⟨⟩ run₁ ∧ Stocked t run₁ ∧
    fetch executor plan chain run₁ = .error e run₂

/-- A run writes what the rows of its statements ask for, in order. If it fails, two writes asked for
disagree, or a chain did not get its rows. -/
theorem run_ends (executor : Executor) (ht : t.Grown) (htree : plan.tree = t) {chains : List Chain}
    (hshapes : ∀ chain ∈ chains, chain.toChainShape ∈ t.chainsFrom 0) :
    ∀ {run : Run} {links : List Link}, Wrote plan links run → Stocked t run →
      Ends
        (fun _ run' => Wrote plan
          (links ++ (answers executor plan chains run).flatMap plan.answerLinks) run')
        (fun e _ => TellsOf plan
            (links ++ (answers executor plan chains run).flatMap plan.answerLinks) e ∨
          Unanswered executor plan t chains run e)
        (chains.forM (runChain executor plan) run) := by
  induction chains with
  | nil =>
    intro run links h _
    rw [answers, List.flatMap_nil, List.append_nil]
    exact h
  | cons chain chains ih =>
    intro run links h hstocked
    have hshape := hshapes chain (List.mem_cons_self ..)
    have hrest := @ih fun d hd => hshapes d (List.mem_cons_of_mem _ hd)
    -- a chain that stops later stops behind this one
    have hbehind : ∀ {r e}, runChain executor plan chain run = .ok ⟨⟩ r →
        Unanswered executor plan t chains r e →
        Unanswered executor plan t (chain :: chains) run e := by
      rintro r e hran ⟨pre, d, post, run₁, run₂, rfl, hpre, hstops⟩
      refine ⟨chain :: pre, d, post, run₁, run₂, rfl, ?_, hstops⟩
      exact (step_bind_of_ok hran _).trans hpre
    show Ends _ _ ((runChain executor plan chain >>= fun _ => chains.forM (runChain executor plan)) run)
    rw [answers]
    cases hfetch : fetch executor plan chain run with
    | error e r =>
      rw [step_bind_of_error (runChain_of_unfetched hfetch)]
      exact .inr ⟨[], chain, chains, run, r, rfl, rfl, hstocked, hfetch⟩
    | ok found r =>
      have hran := runChain_of_fetch hfetch
      cases found with
      | none =>
        rcases fetch_ok hfetch with ⟨-, rfl⟩ | ⟨_, _, _, -, heq, -⟩
        · rw [step_bind_of_ok hran]
          exact (hrest h hstocked).imp (fun _ _ h => h) fun e _ he => he.imp_right (hbehind hran)
        · cases heq
      | some rows =>
        obtain ⟨hwrote, hfilled⟩ := fetch_wrote ht htree hshape h hstocked hfetch
        have hconnect := connect_ends ht.ordered htree hshape hwrote hfilled
        dsimp only [follow] at hran ⊢
        cases hlinked : connect plan chain rows r with
        | error e r' =>
          rw [hlinked] at hran
          rw [step_bind_of_error hran, List.flatMap_singleton]
          exact .inl (hconnect.error hlinked)
        | ok _ r' =>
          rw [hlinked] at hran
          obtain ⟨hwrote', hstocked'⟩ := hconnect.ok hlinked
          rw [step_bind_of_ok hran, List.flatMap_cons, ← List.append_assoc]
          exact (hrest hwrote' hstocked').imp (fun _ _ h => h) fun e _ he =>
            he.imp_right (hbehind hran)

end Run

namespace Plan

variable {t : CommandTree} {cfg : Settings} {s s' : Schema} {plan : Plan} {executor : Executor}

/-- A plan that runs to its end has written what its rows ask for. -/
theorem execute_wrote {out : Output} (ht : t.Grown) (hmake : make t cfg s = .ok plan s')
    (hout : (plan.execute executor).result = .ok out) :
    ({ store := out.store } : Links).Wrote plan.singles plan.collections cfg.conflicts
      (plan.execute executor).warnings (plan.gatherings executor) (plan.pointings executor) := by
  obtain ⟨-, hmade⟩ := make_ok (P := fun _ => True) (fun _ _ _ _ _ _ => trivial) trivial hmake
  have hends := Run.run_ends executor ht hmade.tree
    (fun chain hchain => hmade.shapes ▸ List.mem_map_of_mem hchain)
    (Run.wrote_before plan t) (Run.stocked_before t)
  unfold execute at hout ⊢
  rw [hmade.tree] at hout ⊢
  split at hout
  · rename_i run hrun
    cases hout
    have hwrote := hends.ok hrun
    rw [List.nil_append, ← hmade.tree, Run.Wrote, hmade.settings] at hwrote
    exact hwrote
  · cases hout

/-- A plan that fails tells of two writes that disagree, or one of its chains did not get its
rows. -/
theorem execute_failed {e : LoadError} (ht : t.Grown) (hmake : make t cfg s = .ok plan s')
    (herror : (plan.execute executor).result = .error e) :
    Run.TellsOf plan (plan.links executor) e ∨
      Run.Unanswered executor plan t plan.chains (.before t) e := by
  obtain ⟨-, hmade⟩ := make_ok (P := fun _ => True) (fun _ _ _ _ _ _ => trivial) trivial hmake
  have hends := Run.run_ends executor ht hmade.tree
    (fun chain hchain => hmade.shapes ▸ List.mem_map_of_mem hchain)
    (Run.wrote_before plan t) (Run.stocked_before t)
  unfold execute at herror
  rw [hmade.tree] at herror
  split at herror
  · cases herror
  · rename_i e' run hrun
    cases herror
    have hfailed := hends.error hrun
    rw [List.nil_append, ← hmade.tree] at hfailed
    rw [← hmade.tree]
    exact hfailed

/-- The plan of a tree and what it has loaded, if it runs to its end. -/
def ran? (t : CommandTree) (cfg : Settings) (s : Schema) (executor : Executor) :
    Option (Plan × Output) :=
  (made? t cfg s).bind fun plan =>
    (plan.execute executor).result.toOption.map fun out => (plan, out)

theorem ran?_some {out : Output} (h : ran? t cfg s executor = some (plan, out)) :
    ∃ s', make t cfg s = .ok plan s' ∧ (plan.execute executor).result = .ok out := by
  obtain ⟨made, hmade, h⟩ := Option.bind_eq_some_iff.1 h
  obtain ⟨loaded, hloaded, heq⟩ := Option.map_eq_some_iff.1 h
  cases heq
  obtain ⟨s', hmake⟩ := made?_some hmade
  exact ⟨s', hmake, except_toOption_some hloaded⟩

end Plan

end GraphLoad
