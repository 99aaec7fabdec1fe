/-
Filling rows with objects. Hydrating a chain first gives every row the objects of its cells, for the
source and for every set of the chain, and then links them; these are its two halves. Filling makes
no link, and each slot comes to hold an object of the entity of its set, or none.
-/
import GraphLoad.Proofs.Command.Aliases
import GraphLoad.Proofs.Object.Links
import GraphLoad.Proofs.Run.Identity

namespace GraphLoad

/-! ## One alias -/

theorem ObjectStore.load_grows {s s' : ObjectStore} {entity : String} {key : Key}
    {values : List (String × Value)} {id : Nat} (h : s.load entity key values = (id, s')) :
    s.Extends s' ∧ s'.IsOf entity id := by
  have hid : (s.load entity key values).1 = id := congrArg Prod.fst h
  obtain rfl : (s.load entity key values).2 = s' := congrArg Prod.snd h
  obtain ⟨a, ha, hentity, -⟩ := s.loaded_load entity key values
  exact ⟨s.extends_load entity key values, a, hid ▸ ha, hentity⟩

namespace Entity

/-- What filling a slot does: rows get an object of the entity or none, and nothing is related. -/
structure Fills (e : Entity) (aliasName : String) (rows : List Row) (s : ObjectStore)
    (rows' : List Row) (s' : ObjectStore) (ids : List Nat) : Prop where
  grows : s.Extends s'
  related : ∀ i p, s'.related? i p = s.related? i p
  slots : List.Forall₂ (fun row row' => ∃ o, row' = row.setObject aliasName o ∧
    ∀ i, o = some i → s'.IsOf e.name i) rows rows'
  members : ∀ i ∈ ids, s'.IsOf e.name i

theorem LoadSteps.fills {e : Entity} {aliasName : String} {rows rows' : List Row}
    {s s' : ObjectStore} {ids : List Nat} (h : e.LoadSteps aliasName rows s rows' s' ids) :
    e.Fills aliasName rows s rows' s' ids := by
  induction h with
  | nil s => exact ⟨.refl s, fun _ _ => rfl, .nil, fun i hi => nomatch hi⟩
  | null _ _ _ hf =>
    exact ⟨hf.grows, hf.related, .cons ⟨none, rfl, fun i hi => nomatch hi⟩ hf.slots, hf.members⟩
  | keyed _ _ hload _ hf =>
    obtain ⟨hgrows, hof⟩ := ObjectStore.load_grows hload
    constructor
    case grows => exact hgrows.trans hf.grows
    case related =>
      intro i p
      rw [hf.related, ObjectStore.related?_load hload]
    case slots =>
      refine .cons ⟨_, rfl, fun i hi => ?_⟩ hf.slots
      cases hi
      exact hof.extends hf.grows
    case members =>
      intro i hi
      rcases List.mem_cons.1 hi with rfl | hi
      · exact hof.extends hf.grows
      · exact hf.members i hi

theorem objectLoad_fills {e : Entity} {aliasName : String} {rows : List Row} {s : ObjectStore}
    {ids : List Nat} (h : (e.objectLoad aliasName rows s).objects = .ok ids) :
    e.Fills aliasName rows s (e.objectLoad aliasName rows s).rows
      (e.objectLoad aliasName rows s).store ids := by
  obtain ⟨all, hall, rfl⟩ := except_map_ok h
  have hf := (loadRows_steps hall).fills
  exact ⟨hf.grows, hf.related, hf.slots, fun i hi => hf.members i (List.mem_eraseDups.1 hi)⟩

end Entity

namespace Run

variable {plan : Plan} {chain : Chain} {t : CommandTree} {rows rows' : List Row} {run run' : Run}

/-! ## The two halves of hydration -/

/-- Fills the rows of a chain: with the objects of its source, then with those of its sets. -/
def fill (plan : Plan) (chain : Chain) (rows : List Row) : Running (List Row) := do
  let rows ← loadSource plan chain rows
  (chain.commands.filterMap plan.tree.get?).foldlM loadSet rows

/-- Links the objects of filled rows. -/
def connect (plan : Plan) (chain : Chain) (rows : List Row) : Running Unit := do
  (chain.commands.filterMap plan.tree.get?).forM (linkSet plan rows)
  initSource plan chain

theorem hydrate_eq : hydrate plan chain rows = fill plan chain rows >>= connect plan chain := by
  unfold hydrate fill connect
  rw [bind_assoc]

/-! ## Filled rows -/

/-- A run whose sets list objects of their entities. -/
def Stocked (t : CommandTree) (run : Run) : Prop :=
  ∀ id c, t.get? id = some c → ∀ i ∈ run.setOf id, run.store.IsOf c.entity.name i

theorem stocked_before (t : CommandTree) : Stocked t (before t) := by
  intro id c _ i hi
  have hset : (before t).setOf id = [] := by
    unfold setOf before
    rw [List.getElem?_replicate]
    split <;> rfl
  rw [hset] at hi
  cases hi

/-- A run stays stocked while its store grows. -/
theorem Stocked.grow (h : Stocked t run) (hext : run.store.Extends run'.store)
    (hsets : run'.sets = run.sets) : Stocked t run' := by
  intro id c hc i hi
  rw [setOf, hsets, ← setOf] at hi
  exact (h id c hc i hi).extends hext

/-- Rows whose slots for some sets hold objects of their entities, or none, in a stocked run. -/
structure Filled (t : CommandTree) (done : List Command) (rows : List Row) (run : Run) : Prop where
  slots : ∀ c ∈ done, ∀ row ∈ rows, row.Filled run.store c.aliasName c.entity.name
  stocked : Stocked t run

theorem Filled.grow {done : List Command} (h : Filled t done rows run)
    (hext : run.store.Extends run'.store) (hsets : run'.sets = run.sets) :
    Filled t done rows run' :=
  ⟨fun c hc row hrow => (h.slots c hc row hrow).extends hext, h.stocked.grow hext hsets⟩

/-- Filling one more slot leaves the others. -/
theorem Filled.fills {done : List Command} {c : Command} {ids : List Nat}
    (h : Filled t done rows run) (hc : c.aliasName ∉ done.map Command.aliasName)
    (hfills : c.entity.Fills c.aliasName rows run.store rows' run'.store ids) :
    ∀ d ∈ c :: done, ∀ row ∈ rows', row.Filled run'.store d.aliasName d.entity.name := by
  intro d hd row' hrow'
  obtain ⟨row, hrow, o, rfl, ho⟩ := forall₂_mem_right hfills.slots row' hrow'
  rcases List.mem_cons.1 hd with rfl | hd
  · exact ⟨o, Row.object_setObject .., ho⟩
  · obtain ⟨p, hp, hof⟩ := h.slots d hd row hrow
    have hne : d.aliasName ≠ c.aliasName := by
      intro heq
      exact hc (heq ▸ List.mem_map_of_mem hd)
    refine ⟨p, ?_, fun i hi => (hof i hi).extends hfills.grows⟩
    rw [Row.object_setObject_of_ne row hne]
    exact hp

/-- What filling does to a run: it sends nothing, warns of nothing and relates nothing. -/
structure Quiet (run run' : Run) : Prop where
  grows : run.store.Extends run'.store
  related : ∀ i p, run'.store.related? i p = run.store.related? i p
  sent : run'.sent = run.sent
  warnings : run'.warnings = run.warnings

theorem Quiet.refl (run : Run) : Quiet run run := ⟨.refl _, fun _ _ => rfl, rfl, rfl⟩

theorem Quiet.trans {run₁ run₂ run₃ : Run} (h : Quiet run₁ run₂) (h' : Quiet run₂ run₃) :
    Quiet run₁ run₃ :=
  ⟨h.grows.trans h'.grows, fun i p => (h'.related i p).trans (h.related i p), h'.sent.trans h.sent,
    h'.warnings.trans h.warnings⟩

theorem loadAlias_fills {e : Entity} {aliasName : String} {ids : List Nat}
    (h : loadAlias e aliasName rows run = .ok (rows', ids) run') :
    e.Fills aliasName rows run.store rows' run'.store ids ∧
      run' = { run with store := run'.store } := by
  unfold loadAlias at h
  dsimp only at h
  split at h
  · rename_i objects hobjects
    cases h
    exact ⟨Entity.objectLoad_fills hobjects, rfl⟩
  · cases h

theorem Filled.loadSource (h : Filled t [] rows run) (htree : plan.tree = t)
    (hload : Run.loadSource plan chain rows run = .ok rows' run') :
    Filled t (chain.source.bind t.get?).toList rows' run' ∧ Quiet run run' := by
  unfold Run.loadSource at hload
  rw [htree] at hload
  cases hsource : chain.source.bind t.get? <;> rw [hsource] at hload
  case none =>
    obtain ⟨rfl, rfl⟩ := step_pure_ok hload
    exact ⟨h, .refl _⟩
  case some source =>
    obtain ⟨⟨loaded, ids⟩, run₁, halias, hload⟩ := step_bind_ok hload
    obtain ⟨rfl, rfl⟩ := step_pure_ok hload
    obtain ⟨hfills, hrun⟩ := loadAlias_fills halias
    have hsets : run₁.sets = run.sets := by rw [hrun]
    refine ⟨⟨h.fills (by simp) hfills, h.stocked.grow hfills.grows hsets⟩, hfills.grows,
      hfills.related, ?_, ?_⟩
    · rw [hrun]
    · rw [hrun]

theorem Filled.loadSet {done : List Command} {command : Command} (h : Filled t done rows run)
    (hid : ∀ {c}, t.get? command.id = some c → c = command)
    (hnew : command.aliasName ∉ done.map Command.aliasName)
    (hload : Run.loadSet rows command run = .ok rows' run') :
    Filled t (command :: done) rows' run' ∧ Quiet run run' := by
  unfold Run.loadSet at hload
  obtain ⟨⟨loaded, ids⟩, run₁, halias, hload⟩ := step_bind_ok hload
  obtain ⟨⟨⟩, run₂, hmodify, hload⟩ := step_bind_ok hload
  obtain ⟨rfl, rfl⟩ := step_pure_ok hload
  have hset := step_modify_ok hmodify
  subst hset
  obtain ⟨hfills, hrun⟩ := loadAlias_fills halias
  have hslots : ∀ d ∈ command :: done, ∀ row ∈ loaded,
      row.Filled run₁.store d.aliasName d.entity.name := h.fills hnew hfills
  refine ⟨⟨hslots, fun id c hc i hi => ?_⟩, hfills.grows, hfills.related, ?_, ?_⟩
  · -- the set that was written is the one of this command, by its number
    rw [setOf_set] at hi
    split at hi
    · rename_i heq
      rw [← heq.1] at hc
      rw [hid hc]
      exact hfills.members i hi
    · have hset : run₁.setOf id = run.setOf id := by rw [hrun]; rfl
      rw [hset] at hi
      exact (h.stocked id c hc i hi).extends hfills.grows
  · rw [hrun]
  · rw [hrun]

/-- Filling the slots of sets with different aliases, one set after the other. -/
theorem Filled.loadSets {commands : List Command} :
    ∀ {done : List Command} {rows : List Row} {run : Run}, Filled t done rows run →
      (∀ command ∈ commands, ∀ {c}, t.get? command.id = some c → c = command) →
      ((commands.reverse ++ done).map Command.aliasName).Nodup →
      commands.foldlM Run.loadSet rows run = .ok rows' run' →
      Filled t (commands.reverse ++ done) rows' run' ∧ Quiet run run' := by
  induction commands with
  | nil =>
    intro done rows run h _ _ hload
    rw [List.foldlM_nil] at hload
    obtain ⟨rfl, rfl⟩ := step_pure_ok hload
    exact ⟨h, .refl _⟩
  | cons command commands ih =>
    intro done rows run h hid hnodup hload
    rw [List.foldlM_cons] at hload
    obtain ⟨rows₁, run₁, hfirst, hrest⟩ := step_bind_ok hload
    rw [List.reverse_cons, List.append_assoc, List.singleton_append] at hnodup ⊢
    have hnew : command.aliasName ∉ done.map Command.aliasName := by
      rw [List.map_append, List.map_cons] at hnodup
      exact (List.nodup_cons.1 hnodup.of_append_right).1
    obtain ⟨h₁, hquiet₁⟩ := h.loadSet (hid command (List.mem_cons_self ..)) hnew hfirst
    obtain ⟨h₂, hquiet₂⟩ := ih h₁ (fun c hc => hid c (List.mem_cons_of_mem _ hc)) hnodup hrest
    exact ⟨h₂, hquiet₁.trans hquiet₂⟩

/-! ## The rows of a chain -/

/-- The sets that the rows of a chain are filled for: those of its commands and its source. -/
def slotsOf (t : CommandTree) (chain : ChainShape) : List Command :=
  (chain.commands.filterMap t.get?).reverse ++ (chain.source.bind t.get?).toList

theorem mem_slotsOf_commands {c : Command} {shape : ChainShape}
    (h : c ∈ shape.commands.filterMap t.get?) : c ∈ slotsOf t shape :=
  List.mem_append_left _ (List.mem_reverse.2 h)

theorem mem_slotsOf_parent (ht : t.Ordered) {shape : ChainShape} (hshape : shape ∈ t.chainsFrom 0)
    {c p : Command} {o : Origin} (hc : c ∈ shape.commands.filterMap t.get?)
    (ho : c.origin = some o) (hp : t.get? o.parent = some p) : p ∈ slotsOf t shape := by
  rcases parent_loaded ht hshape hc ho hp with hs | hs
  · exact List.mem_append_right _ (by rw [hs]; exact List.mem_singleton_self p)
  · exact mem_slotsOf_commands hs

/-- The commands of a chain come after its source, and each once. -/
theorem nodup_numbers (ht : t.Ordered) {shape : ChainShape} (hshape : shape ∈ t.chainsFrom 0) :
    (shape.commands.reverse ++ shape.source.toList).Nodup := by
  have hcommands : shape.commands.Nodup :=
    (List.nodup_flatMap.1 (CommandTree.nodup_commands ht)).1 shape hshape
  refine List.nodup_append.2 ⟨List.nodup_reverse.2 hcommands, ?_, fun i hi s hs => ?_⟩
  · cases shape.source <;> simp
  · rw [Option.mem_toList] at hs
    obtain ⟨root, hroot⟩ : ∃ root, t.get? shape.root = some root :=
      CommandTree.get?_of_lt ((CommandTree.partition_chainsFrom ht).commands shape hshape _
        (CommandTree.root_mem_commands hshape))
    have hparent : root.parent = some s := by
      rw [← CommandTree.source_eq hshape hroot]
      exact hs
    have hlt := ht.parent_lt hroot hparent
    rw [List.mem_reverse, CommandTree.eq_chainAt_of_mem t hshape] at hi
    have hle := t.le_of_mem_chainAt hi
    omega

/-- Every slot of a chain has an alias of its own. -/
theorem nodup_slotsOf (ht : t.Grown) {shape : ChainShape} (hshape : shape ∈ t.chainsFrom 0) :
    ((slotsOf t shape).map Command.aliasName).Nodup := by
  have hslots : slotsOf t shape =
      (shape.commands.reverse ++ shape.source.toList).filterMap t.get? := by
    unfold slotsOf
    rw [List.filterMap_append, List.filterMap_reverse]
    cases shape.source with
    | none => rfl
    | some s => cases h : t.get? s <;> simp [h]
  rw [hslots, List.map_filterMap]
  refine List.Nodup.filterMap (fun i j a hi hj => ?_) (nodup_numbers ht.ordered hshape)
  obtain ⟨c, hc, rfl⟩ := Option.map_eq_some_iff.1 hi
  obtain ⟨d, hd, heq⟩ := Option.map_eq_some_iff.1 hj
  exact ht.alias_inj hc hd heq.symm

/-- Filling the rows of a chain fills the slots of its sets and of its source. -/
theorem Filled.fill (ht : t.Grown) (htree : plan.tree = t)
    (hshape : chain.toChainShape ∈ t.chainsFrom 0) (h : Filled t [] rows run)
    (hfill : Run.fill plan chain rows run = .ok rows' run') :
    Filled t (slotsOf t chain.toChainShape) rows' run' ∧ Quiet run run' := by
  unfold Run.fill at hfill
  rw [htree] at hfill
  obtain ⟨rows₁, run₁, hsource, hsets⟩ := step_bind_ok hfill
  obtain ⟨h₁, hquiet₁⟩ := h.loadSource htree hsource
  have hid : ∀ command ∈ chain.commands.filterMap t.get?, ∀ {c}, t.get? command.id = some c →
      c = command := by
    intro command hcommand c hc
    obtain ⟨id, -, hget⟩ := List.mem_filterMap.1 hcommand
    rw [ht.ordered.ids hget, hget] at hc
    exact (Option.some.inj hc).symm
  obtain ⟨h₂, hquiet₂⟩ := h₁.loadSets hid (nodup_slotsOf ht hshape) hsets
  exact ⟨h₂, hquiet₁.trans hquiet₂⟩

end Run

end GraphLoad
