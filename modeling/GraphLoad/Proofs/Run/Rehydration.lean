/-
Hydration made twice. What a chain makes of its rows is a list of writes to the objects there are once
its keys were met, and a list of sets. Main statement: where conflicts are passed over, hydrating the
same rows again succeeds and changes no object and no set; and whichever way it ends, no hydration
takes an object away, changes its identity or touches the set of a command outside its chain.
-/
import GraphLoad.Proofs.Object.Reloading
import GraphLoad.Proofs.Run.Conflicts
import GraphLoad.Proofs.Run.Footprint

namespace GraphLoad

namespace Run

variable {plan : Plan} {chain : Chain} {t : CommandTree} {rows rows₁ rows₂ rows' : List Row}
  {run run₁ run₂ run' : Run} {aliases aliases' : List String}

/-! ## Sets that are listed -/

/-- The sets after the objects of some of them were listed, by number. -/
def assign (sets : List (List Nat)) (listed : List (Nat × List Nat)) : List (List Nat) :=
  listed.foldl (fun sets p => sets.set p.1 p.2) sets

theorem getElem?_assign (sets : List (List Nat)) (listed : List (Nat × List Nat)) (i : Nat) :
    (assign sets listed)[i]? =
      sets[i]?.map fun ids => listed.foldl (fun ids p => if p.1 = i then p.2 else ids) ids := by
  induction listed generalizing sets with
  | nil => exact Option.map_id'.symm
  | cons p listed ih =>
    show (assign (sets.set p.1 p.2) listed)[i]? = _
    rw [ih, List.getElem?_set']
    split
    · rename_i heq
      simp only [List.foldl_cons, if_pos heq]
      cases sets[i]? <;> rfl
    · rename_i hne
      simp only [List.foldl_cons, if_neg hne]

/-- Sets whose objects are listed again stay as they are. -/
theorem assign_twice (sets : List (List Nat)) (listed : List (Nat × List Nat)) :
    assign (assign sets listed) listed = assign sets listed := by
  refine List.ext_getElem? fun i => ?_
  rw [getElem?_assign, getElem?_assign, Option.map_map]
  refine congrArg (fun f => sets[i]?.map f) (funext fun ids => foldl_twice ?_ ids)
  by_cases hlisted : ∃ p ∈ listed, p.1 = i
  · obtain ⟨p, hp, hi⟩ := hlisted
    exact .inl ⟨p, hp, fun _ _ => by rw [if_pos hi, if_pos hi]⟩
  · have hother : ∀ p ∈ listed, ¬ p.1 = i := fun p hp hi => hlisted ⟨p, hp, hi⟩
    refine .inr ⟨fun p hp ids => ?_, fun p hp q _ ids _ => ?_⟩
    all_goals rw [if_neg (hother p hp)]

/-! ## Rows that are filled again -/

/-- How a step of filling that succeeded does so again: by a list of writes and of sets, in every run
in which its objects are there, with the same objects for rows that are alike. -/
structure Repeats (x : List Row → Running (List Row)) (aliases aliases' : List String)
    (rows rows' : List Row) (run run' : Run) (ws : List Write) (listed : List (Nat × List Nat)) :
    Prop where
  written : ∀ vs, run.store.Written vs → run'.store.Written (vs ++ ws)
  grows : run.store.Extends run'.store
  sets : run'.sets = assign run.sets listed
  cells : rows'.map Row.cells = rows.map Row.cells
  again : ∀ rows₂ run₂, run'.store.Extends run₂.store →
    List.Forall₂ (Row.Alike aliases) rows rows₂ →
    ∃ rows₂', x rows₂ run₂ = .ok rows₂'
        { run₂ with store := run₂.store.writeAll ws, sets := assign run₂.sets listed } ∧
      List.Forall₂ (Row.Alike aliases') rows' rows₂'

theorem Repeats.nothing (rows : List Row) (run : Run) :
    Repeats pure aliases aliases rows rows run run [] [] where
  written := fun vs hvs => by rwa [List.append_nil]
  grows := .refl _
  sets := rfl
  cells := rfl
  again := fun rows₂ _ _ halike => ⟨rows₂, rfl, halike⟩

/-- Two steps that do so do so one after the other. -/
theorem Repeats.bind {x y : List Row → Running (List Row)} {mid : List String} {ws ws' : List Write}
    {listed listed' : List (Nat × List Nat)} (hx : Repeats x aliases mid rows rows₁ run run₁ ws listed)
    (hy : Repeats y mid aliases' rows₁ rows' run₁ run' ws' listed') :
    Repeats (fun rows => x rows >>= y) aliases aliases' rows rows' run run' (ws ++ ws')
      (listed ++ listed') where
  written := fun vs hvs => by
    rw [← List.append_assoc]
    exact hy.written _ (hx.written vs hvs)
  grows := hx.grows.trans hy.grows
  sets := by rw [hy.sets, hx.sets, assign, assign, assign, List.foldl_append]
  cells := hy.cells.trans hx.cells
  again := fun rows₂ run₂ hext halike => by
    obtain ⟨mid₂, hfirst, halike₁⟩ := hx.again rows₂ run₂ (hy.grows.trans hext) halike
    obtain ⟨rows₂', hsecond, halike₂⟩ := hy.again mid₂
      { run₂ with store := run₂.store.writeAll ws, sets := assign run₂.sets listed }
      (hext.trans (ObjectStore.extends_writeAll run₂.store ws)) halike₁
    refine ⟨rows₂', ?_, halike₂⟩
    rw [step_bind_of_ok hfirst, hsecond, ObjectStore.writeAll_append, assign, assign, assign,
      List.foldl_append]

theorem regular_of_cells (hcells : rows'.map Row.cells = rows.map Row.cells)
    (hrows : ∀ row ∈ rows, row.Regular) : ∀ row ∈ rows', row.Regular := by
  intro row' hrow'
  have hmem : row'.cells ∈ rows.map Row.cells := hcells ▸ List.mem_map_of_mem hrow'
  obtain ⟨row, hrow, heq⟩ := List.mem_map.1 hmem
  rw [Row.Regular, ← heq]
  exact hrows row hrow

theorem alike_of_cells (hcells : rows₂.map Row.cells = rows.map Row.cells) :
    List.Forall₂ (Row.Alike []) rows rows₂ := by
  rw [← List.forall₂_eq_eq_eq, List.forall₂_map_left_iff, List.forall₂_map_right_iff] at hcells
  exact hcells.flip.imp fun row row₂ h => ⟨h, nofun⟩

/-- Filling the rows of an alias can be done again, with the same objects. -/
theorem loadAlias_again {e : Entity} {aliasName : String} {ids : List Nat}
    (hrows : ∀ row ∈ rows, row.Regular)
    (h : loadAlias e aliasName rows run = .ok (rows', ids) run') :
    rows'.map Row.cells = rows.map Row.cells ∧ run'.sets = run.sets ∧
      ∃ ws, (∀ vs, run.store.Written vs → run'.store.Written (vs ++ ws)) ∧
        run.store.Extends run'.store ∧
        ∀ aliases rows₂ run₂, run'.store.Extends run₂.store →
          List.Forall₂ (Row.Alike aliases) rows rows₂ →
          ∃ rows₂', loadAlias e aliasName rows₂ run₂ =
              .ok (rows₂', ids) { run₂ with store := run₂.store.writeAll ws } ∧
            List.Forall₂ (Row.Alike (aliasName :: aliases)) rows' rows₂' := by
  have hcells : rows'.map Row.cells = rows.map Row.cells := by
    obtain ⟨hfills, -⟩ := loadAlias_fills h
    rw [← List.forall₂_eq_eq_eq, List.forall₂_map_left_iff, List.forall₂_map_right_iff]
    exact hfills.slots.flip.imp fun row' row ⟨o, hrow', _⟩ => by rw [hrow']; rfl
  unfold loadAlias at h
  dsimp only at h
  split at h
  · rename_i objects hobjects
    cases h
    obtain ⟨all, hall, rfl⟩ := except_map_ok hobjects
    obtain ⟨ws, hwritten, hgrows, hagain⟩ := (Entity.loadRows_steps hall).again hrows
    refine ⟨hcells, rfl, ws, hwritten, hgrows, fun aliases rows₂ run₂ hext halike => ?_⟩
    obtain ⟨rows₂', hload, halike'⟩ := hagain aliases rows₂ run₂.store hext halike
    refine ⟨rows₂', ?_, halike'⟩
    unfold loadAlias Entity.objectLoad
    rw [hload]
    rfl
  · cases h

theorem loadSource_none (h : chain.source.bind plan.tree.get? = none) :
    loadSource plan chain = pure := by
  funext rows
  rw [loadSource, h]

theorem loadSource_some {source : Command} (h : chain.source.bind plan.tree.get? = some source)
    (rows : List Row) : loadSource plan chain rows =
      (do return (← loadAlias source.entity source.aliasName rows).1) := by
  rw [loadSource, h]

theorem loadSource_again (aliases : List String) (hrows : ∀ row ∈ rows, row.Regular)
    (h : loadSource plan chain rows run = .ok rows' run') :
    ∃ ws, Repeats (loadSource plan chain) aliases
      ((chain.source.bind plan.tree.get?).toList.map Command.aliasName ++ aliases) rows rows' run run'
      ws [] := by
  cases hsource : chain.source.bind plan.tree.get? with
  | none =>
    rw [loadSource_none hsource] at h ⊢
    obtain ⟨rfl, rfl⟩ := step_pure_ok h
    exact ⟨[], .nothing rows run⟩
  | some source =>
    rw [loadSource_some hsource] at h
    obtain ⟨⟨loaded, ids⟩, run₁, hload, h⟩ := step_bind_ok h
    obtain ⟨rfl, rfl⟩ := step_pure_ok h
    obtain ⟨hcells, hsets, ws, hwritten, hgrows, hagain⟩ := loadAlias_again hrows hload
    refine ⟨ws, hwritten, hgrows, hsets, hcells, fun rows₂ run₂ hext halike => ?_⟩
    obtain ⟨rows₂', hload₂, halike'⟩ := hagain aliases rows₂ run₂ hext halike
    refine ⟨rows₂', ?_, halike'⟩
    rw [loadSource_some hsource, step_bind_of_ok hload₂]
    rfl

theorem loadSet_again {c : Command} (aliases : List String) (hrows : ∀ row ∈ rows, row.Regular)
    (h : loadSet rows c run = .ok rows' run') :
    ∃ ws ids, Repeats (loadSet · c) aliases (c.aliasName :: aliases) rows rows' run run' ws
      [(c.id, ids)] := by
  unfold loadSet at h
  obtain ⟨⟨loaded, ids⟩, run₁, hload, h⟩ := step_bind_ok h
  obtain ⟨⟨⟩, run₂, hmodify, h⟩ := step_bind_ok h
  obtain ⟨rfl, rfl⟩ := step_pure_ok h
  have hset := step_modify_ok hmodify
  subst hset
  obtain ⟨hcells, hsets, ws, hwritten, hgrows, hagain⟩ := loadAlias_again hrows hload
  refine ⟨ws, ids, hwritten, hgrows, by rw [hsets]; rfl, hcells, fun rows₂ run₂ hext halike => ?_⟩
  obtain ⟨rows₂', hload₂, halike'⟩ := hagain aliases rows₂ run₂ hext halike
  refine ⟨rows₂', ?_, halike'⟩
  unfold loadSet
  rw [step_bind_of_ok hload₂]
  rfl

theorem loadSets_again {commands : List Command} (aliases : List String) (hrows : ∀ row ∈ rows, row.Regular)
    (h : commands.foldlM loadSet rows run = .ok rows' run') :
    ∃ ws listed, Repeats (commands.foldlM loadSet) aliases
      (commands.reverse.map Command.aliasName ++ aliases) rows rows' run run' ws listed := by
  induction commands generalizing rows run aliases with
  | nil =>
    rw [List.foldlM_nil] at h
    obtain ⟨rfl, rfl⟩ := step_pure_ok h
    exact ⟨[], [], .nothing rows run⟩
  | cons c commands ih =>
    rw [List.foldlM_cons] at h
    obtain ⟨rows₁, run₁, hfirst, hrest⟩ := step_bind_ok h
    obtain ⟨ws, ids, hc⟩ := loadSet_again aliases hrows hfirst
    obtain ⟨ws', listed, hcommands⟩ := ih (c.aliasName :: aliases)
      (regular_of_cells hc.cells hrows) hrest
    have hboth := hc.bind hcommands
    rw [List.reverse_cons, List.map_append, List.append_assoc]
    exact ⟨_, _, hboth⟩

/-- The rows of a chain can be filled again. -/
theorem fill_again (htree : plan.tree = t) (hrows : ∀ row ∈ rows, row.Regular)
    (h : fill plan chain rows run = .ok rows' run') :
    ∃ ws listed, Repeats (fill plan chain) []
      ((slotsOf t chain.toChainShape).map Command.aliasName) rows rows' run run' ws listed := by
  subst htree
  obtain ⟨rows₁, run₁, hsource, hsets⟩ := step_bind_ok h
  obtain ⟨ws, hfirst⟩ := loadSource_again [] hrows hsource
  obtain ⟨ws', listed, hrest⟩ := loadSets_again _ (regular_of_cells hfirst.cells hrows) hsets
  have hboth := hfirst.bind hrest
  rw [List.append_nil, ← List.map_append] at hboth
  exact ⟨_, _, hboth⟩

/-! ## Rows that are linked again -/

/-- The writes that linking the set of a command makes. -/
def linkWrites (plan : Plan) (rows : List Row) (c : Command) : List Write :=
  match c.origin with
  | none => []
  | some origin =>
    match plan.tree.get? origin.parent with
    | none => []
    | some parent =>
      rows.flatMap (origin.relation.rowWrites parent.aliasName c.aliasName
        (Relation.backProperty (plan.reverse? c.id)))

/-- The writes that begin the collections of a source. -/
def sourceWrites (plan : Plan) (chain : Chain) (run : Run) : List Write :=
  match chain.source, (plan.tree.get? chain.root).bind Command.relation with
  | some source, some relation =>
    if relation.isMany then (run.setOf source).map (.collect · relation.property none) else []
  | _, _ => []

theorem sourceWrites_congr (h : ∀ id, run₂.setOf id = run₁.setOf id) :
    sourceWrites plan chain run₂ = sourceWrites plan chain run₁ := by
  unfold sourceWrites
  cases chain.source <;> cases (plan.tree.get? chain.root).bind Command.relation
  case some.some source relation =>
    dsimp only
    rw [h source]
  all_goals rfl

/-- The writes that linking the rows of a chain makes. -/
def connectWrites (plan : Plan) (chain : Chain) (rows : List Row) (run : Run) : List Write :=
  (chain.commands.filterMap plan.tree.get?).flatMap (linkWrites plan rows) ++
    sourceWrites plan chain run

/-- Steps that each make some writes make them all. -/
theorem forM_writes {σ α : Type} (store : σ → ObjectStore) (writes : α → List Write)
    {f : α → EStateM LoadError σ PUnit} {xs : List α}
    (hf : ∀ x ∈ xs, ∀ s, Ends (fun _ s' => store s' = (store s).writeAll (writes x))
      (fun _ _ => False) (f x s)) (s : σ) :
    Ends (fun _ s' => store s' = (store s).writeAll (xs.flatMap writes)) (fun _ _ => False)
      (xs.forM f s) := by
  refine (forM_ends (P := fun pre s' => store s' = (store s).writeAll (pre.flatMap writes))
    (E := fun _ _ _ => False) (fun pre x post hxs s₁ hs₁ => ?_) rfl).imp (fun _ _ h => h)
    fun _ _ ⟨_, _, _, h⟩ => h
  rw [List.flatMap_append, List.flatMap_singleton, ObjectStore.writeAll_append, ← hs₁]
  exact hf x (hxs ▸ List.mem_append_right _ (List.mem_cons_self ..)) s₁

theorem linkSet_writes {c : Command} (hwarn : plan.settings.conflicts = .warn)
    (halike : List.Forall₂ (Row.Alike aliases) rows rows₂) (hc : c.aliasName ∈ aliases)
    (hparent : ∀ o p, c.origin = some o → plan.tree.get? o.parent = some p → p.aliasName ∈ aliases) :
    linkWrites plan rows₂ c = linkWrites plan rows c ∧ ∀ run,
      Ends (fun _ run' => run'.store = run.store.writeAll (linkWrites plan rows c))
        (fun _ _ => False) (linkSet plan rows c run) := by
  unfold linkSet linkWrites
  cases ho : c.origin with
  | none => exact ⟨rfl, fun run => rfl⟩
  | some o =>
    dsimp only
    cases hp : plan.tree.get? o.parent with
    | none => exact ⟨rfl, fun run => rfl⟩
    | some p =>
      dsimp only
      have hp := hparent o p ho hp
      constructor
      · rw [List.flatMap_def, List.flatMap_def]
        congr 1
        refine List.forall₂_eq_eq_eq ▸ List.forall₂_map_left_iff.2 (List.forall₂_map_right_iff.2 ?_)
        exact halike.flip.imp fun _ _ h => Relation.rowWrites_alike h hp hc
      · intro run
        rw [hwarn]
        refine (linking_ends (forM_writes Links.store
          (o.relation.rowWrites p.aliasName c.aliasName
            (Relation.backProperty (plan.reverse? c.id))) (fun row hrow l => ?_) _)).imp ?_
          fun _ _ h => h
        · obtain ⟨row₂, -, h⟩ := forall₂_mem_left halike row hrow
          exact Relation.linkRow_writes h hp hc l
        · rintro _ _ ⟨l, hl, rfl⟩
          exact hl

theorem initSource_writes (run : Run) :
    Ends (fun _ run' => run'.store = run.store.writeAll (sourceWrites plan chain run))
      (fun _ _ => False) (initSource plan chain run) := by
  unfold initSource sourceWrites
  cases chain.source with
  | none => exact rfl
  | some source =>
    cases (plan.tree.get? chain.root).bind Command.relation with
    | none => exact rfl
    | some relation =>
      dsimp only
      split
      · show (run.setOf source).foldl (·.initMany · relation.property) run.store = _
        rw [ObjectStore.writeAll, List.foldl_map]
        exact List.foldl_ext _ _ _ fun s i _ => ObjectStore.related_many s i relation.property none
      · exact rfl

/-- Where conflicts are passed over, rows that were filled for a chain are linked by their writes, and
rows like them by the same. -/
theorem connect_writes (ht : t.Ordered) (htree : plan.tree = t)
    (hshape : chain.toChainShape ∈ t.chainsFrom 0) (hwarn : plan.settings.conflicts = .warn)
    (halike : List.Forall₂ (Row.Alike ((slotsOf t chain.toChainShape).map Command.aliasName)) rows
      rows₂) (run : Run) :
    connectWrites plan chain rows₂ run = connectWrites plan chain rows run ∧
      Ends (fun _ run' => run'.store = run.store.writeAll (connectWrites plan chain rows run))
        (fun _ _ => False) (connect plan chain rows run) := by
  subst htree
  have hlink : ∀ c ∈ chain.commands.filterMap plan.tree.get?,
      linkWrites plan rows₂ c = linkWrites plan rows c ∧ ∀ run,
        Ends (fun _ run' => run'.store = run.store.writeAll (linkWrites plan rows c))
          (fun _ _ => False) (linkSet plan rows c run) := fun c hc =>
    linkSet_writes hwarn halike (List.mem_map_of_mem (mem_slotsOf_commands hc))
      fun o p ho hp => List.mem_map_of_mem (mem_slotsOf_parent ht hshape hc ho hp)
  unfold connectWrites connect
  refine ⟨by rw [List.flatMap_congr fun c hc => (hlink c hc).1], ?_⟩
  have hlinks := forM_writes Run.store _ (fun c hc run => (hlink c hc).2 run) run
  cases hlinked : (chain.commands.filterMap plan.tree.get?).forM (linkSet plan rows) run with
  | error e run₁ => exact (hlinks.error hlinked).elim
  | ok _ run₁ =>
    rw [step_bind_of_ok hlinked, ObjectStore.writeAll_append, ← hlinks.ok hlinked]
    -- linking changes no set, so that the source is the one there was before
    have honward : Onward [] run run₁ := linkSets_onward.ok hlinked
    rw [← sourceWrites_congr fun s => honward.sets s List.not_mem_nil]
    exact initSource_writes run₁

/-! ## One chain -/

theorem Onward.set_eq {ids : List Nat} (h : Onward ids run run') {id : Nat} (hid : id ∉ ids) :
    run'.sets[id]? = run.sets[id]? := by
  have hset := h.sets id hid
  unfold setOf at hset
  rcases Nat.lt_or_ge id run.sets.length with hlt | hge
  · rw [List.getElem?_eq_getElem hlt, List.getElem?_eq_getElem (h.count ▸ hlt)] at hset ⊢
    exact congrArg some hset
  · rw [List.getElem?_eq_none hge, List.getElem?_eq_none (h.count ▸ hge)]

/-- Rows that were hydrated are hydrated again without a change, as long as conflicts are passed
over. -/
theorem hydrate_again (ht : t.Ordered) (htree : plan.tree = t)
    (hshape : chain.toChainShape ∈ t.chainsFrom 0) (hwarn : plan.settings.conflicts = .warn)
    (hrows : ∀ row ∈ rows, row.Regular) (h : hydrate plan chain rows run = .ok ⟨⟩ run')
    (hcells : rows₂.map Row.cells = rows.map Row.cells) :
    ∃ run'', hydrate plan chain rows₂ run' = .ok ⟨⟩ run'' ∧ run''.store = run'.store ∧
      run''.sets = run'.sets := by
  rw [hydrate_eq] at h ⊢
  obtain ⟨filled, run₁, hfill, hconnect⟩ := step_bind_ok h
  obtain ⟨ws, listed, hrepeats⟩ := fill_again htree hrows hfill
  have honward : Onward [] run₁ run' := connect_onward.ok hconnect
  have hsets : run'.sets = run₁.sets :=
    List.ext_getElem? fun i => honward.set_eq List.not_mem_nil
  obtain ⟨filled₂, hfill₂, halike⟩ :=
    hrepeats.again rows₂ run' honward.retains.grows (alike_of_cells hcells)
  rw [step_bind_of_ok hfill₂]
  -- the sets are those that filling left the first time, and so are the writes of linking
  have hassigned : assign run'.sets listed = run₁.sets := by
    rw [hsets, hrepeats.sets, assign_twice]
  rw [hassigned]
  generalize hrun₂ : ({ run' with store := run'.store.writeAll ws, sets := run₁.sets } : Run) = run₂
  have hsource : sourceWrites plan chain run₂ = sourceWrites plan chain run₁ :=
    sourceWrites_congr fun id => by rw [← hrun₂]; rfl
  have hlinks := (connect_writes ht htree hshape hwarn halike run₁).2.ok hconnect
  obtain ⟨hsame, hlinks₂⟩ := connect_writes ht htree hshape hwarn
    (halike.flip.imp fun _ _ h => h.symm) run₂
  cases hconnect₂ : connect plan chain filled₂ run₂ with
  | error e run'' => exact (hlinks₂.error hconnect₂).elim
  | ok _ run'' =>
    refine ⟨run'', rfl, ?stored, ?kept⟩
    case stored =>
      rw [hlinks₂.ok hconnect₂, ← hsame, connectWrites, hsource, ← connectWrites, ← hrun₂]
      dsimp only
      rw [← ObjectStore.writeAll_append, hlinks]
      exact (hrepeats.written [] (.nil _)).again
    case kept =>
      have honward₂ : Onward [] run₂ run'' := connect_onward.ok hconnect₂
      rw [hsets]
      exact List.ext_getElem? fun i => by rw [honward₂.set_eq List.not_mem_nil, ← hrun₂]

end Run

namespace Plan

variable {t : CommandTree} {cfg : Settings} {s s' : Schema} {plan : Plan} {chain : Chain}

/-- Where conflicts are passed over, hydrating the rows of a chain again, as they were or with the
objects that they have been given, succeeds and leaves the store and all sets as they are. Whatever the
policy and however it ends, hydrating rows keeps every object under its number, with its entity and its
key, and all sets but those of the commands of the chain. -/
theorem hydrate_idempotent (ht : t.Grown) (hmake : make t cfg s = .ok plan s')
    (hchain : chain ∈ plan.chains) (rows : List Row) (run run' : Run) :
    (cfg.conflicts = .warn → (∀ row ∈ rows, row.Regular) →
      Run.hydrate plan chain rows run = .ok ⟨⟩ run' →
      ∀ rows₂ : List Row, rows₂.map Row.cells = rows.map Row.cells →
        ∃ run'', Run.hydrate plan chain rows₂ run' = .ok ⟨⟩ run'' ∧ run''.store = run'.store ∧
          run''.sets = run'.sets) ∧
    ((Run.hydrate plan chain rows run = .ok ⟨⟩ run' ∨
        ∃ e, Run.hydrate plan chain rows run = .error e run') →
      run.store.Extends run'.store ∧ ∀ id, id ∉ chain.commands → run'.sets[id]? = run.sets[id]?) := by
  have hmade := made_of_make hmake
  constructor
  · intro hwarn hrows hydrated rows₂ hcells
    exact Run.hydrate_again ht.ordered hmade.tree (hmade.shape_mem hchain)
      (hmade.settings ▸ hwarn) hrows hydrated hcells
  · intro hends
    have honward : Run.Onward chain.commands run run' := by
      have hmoves : Moves (Run.Onward chain.commands) (Run.hydrate plan chain rows) :=
        Run.hydrate_onward ht.ordered hmade.tree
      rcases hends with hok | ⟨e, herror⟩
      · exact hmoves.ok hok
      · exact (hmoves run).error herror
    exact ⟨honward.retains.grows, fun id hid => honward.set_eq hid⟩

/-- One book beside two authors, whose second row takes the book from the first author. -/
def quarrelled : List Row :=
  [.ofList [("AUTHOR1:id", .int 1), ("BOOK2:id", .int 7)],
    .ofList [("AUTHOR1:id", .int 2), ("BOOK2:id", .int 7)]]

/-- The rows quarrel about the author of the book, and do so again without a change. -/
theorem hydrate_idempotent_quarrel : works.Grown ∧ (∀ row ∈ quarrelled, row.Regular) ∧
    ∃ plan s' chain run' run'', make works {} { catalog := .ofList [author, book] } = .ok plan s' ∧
      chain ∈ plan.chains ∧ Run.hydrate plan chain quarrelled (.before works) = .ok ⟨⟩ run' ∧
      run'.warnings.length = 1 ∧ Run.hydrate plan chain quarrelled run' = .ok ⟨⟩ run'' ∧
      run''.store = run'.store ∧ run''.sets = run'.sets := by
  have hregular : ∀ row ∈ quarrelled, row.Regular := by decide +kernel
  have hfacts : ((made? works {} { catalog := .ofList [author, book] }).any fun plan =>
      plan.chains.any fun chain =>
        (answer (Run.hydrate plan chain quarrelled) (.before works)).isOk &&
          (leaves (Run.hydrate plan chain quarrelled) (.before works)).warnings.length == 1) = true := by
    decide +kernel
  obtain ⟨plan, hsome, hfacts⟩ := (Option.any_eq_true _ _).1 hfacts
  obtain ⟨chain, hchain, hfacts⟩ := List.any_eq_true.1 hfacts
  rw [Bool.and_eq_true, beq_iff_eq] at hfacts
  obtain ⟨hok, hwarned⟩ := hfacts
  obtain ⟨s', hmake⟩ := made?_some hsome
  cases hanswer : answer (Run.hydrate plan chain quarrelled) (.before works) with
  | error e =>
    rw [hanswer] at hok
    cases hok
  | ok _ =>
    have hydrated := step_of_answer_ok hanswer
    obtain ⟨run'', hagain, hstore, hsets⟩ := (hydrate_idempotent grown_works hmake hchain quarrelled
      (.before works) _).1 rfl hregular hydrated quarrelled rfl
    exact ⟨grown_works, hregular, plan, s', chain, _, run'', hmake, hchain, hydrated, hwarned, hagain,
      hstore, hsets⟩

end Plan

end GraphLoad
