/-
Runs whose statements are all answered. If every row has a cell for every label of its statement, each
chain gets its rows: its source is found again, every key can be read, and nothing is left that could
fail before the rows are linked.
-/
import GraphLoad.Proofs.Plan.Labels
import GraphLoad.Proofs.Run.Trace

namespace GraphLoad

open Sql

/-- A row with a cell under every one of some labels. -/
def Row.Labelled (labels : List String) (row : Row) : Prop :=
  ∀ text ∈ labels, (row.get? text).isSome = true

/-- What answers every statement of a plan, in rows that have all of its columns. -/
def Plan.Supplies (plan : Plan) (executor : Executor) : Prop :=
  ∀ pre chain post run query, plan.chains = pre ++ chain :: post →
    pre.forM (Run.runChain executor plan) (Run.before plan.tree) = .ok ⟨⟩ run →
    Run.queryFor plan chain run = .ok (some query) run →
    ∃ rows, executor (run.sent ++ [query.build plan.settings.dialect]) = .ok rows ∧
      ∀ row ∈ rows, row.Labelled (query.build plan.settings.dialect).labels

theorem Row.Labelled.setObject {labels : List String} {row : Row} (h : row.Labelled labels)
    (aliasName : String) (o : Option Nat) : (row.setObject aliasName o).Labelled labels := h

namespace Run

variable {executor : Executor} {plan : Plan} {chain : Chain} {t : CommandTree} {labels : List String}
  {rows rows' : List Row} {run run' : Run}

/-! ## Rows are filled -/

/-- Rows with a cell for every part of the key of a set get their objects, and keep their cells. -/
theorem loadAlias_total (run : Run) {e : Entity} {aliasName : String}
    (hkey : ∀ field ∈ e.primaryKey, label aliasName field ∈ labels)
    (hrows : ∀ row ∈ rows, row.Labelled labels) :
    ∃ rows' ids run', loadAlias e aliasName rows run = .ok (rows', ids) run' ∧
      ∀ row ∈ rows', row.Labelled labels := by
  have hcells : ∀ row ∈ rows, ∀ field ∈ e.primaryKey, (row.value? aliasName field).isSome = true :=
    fun row hrow field hfield => hrows row hrow _ (hkey field hfield)
  obtain ⟨all, hall⟩ := Entity.loadRows_total (s := run.store) hcells
  have hload : (e.objectLoad aliasName rows run.store).objects = .ok all.eraseDups := by
    show Except.map List.eraseDups (e.loadRows aliasName rows run.store).objects = _
    rw [hall]
    rfl
  have hslots := (Entity.objectLoad_fills hload).slots
  refine ⟨_, _, _, by unfold loadAlias; dsimp only; rw [hload], fun row' hrow' => ?_⟩
  obtain ⟨row, hrow, o, rfl, -⟩ := forall₂_mem_right hslots row' hrow'
  exact (hrows row hrow).setObject aliasName o

theorem loadSets_total {commands : List Command}
    (hkeys : ∀ c ∈ commands, ∀ field ∈ c.entity.primaryKey, label c.aliasName field ∈ labels) :
    ∀ {rows : List Row} (run : Run), (∀ row ∈ rows, row.Labelled labels) →
      ∃ rows' run', commands.foldlM loadSet rows run = .ok rows' run' := by
  induction commands with
  | nil => exact fun {rows} run _ => ⟨rows, run, rfl⟩
  | cons c commands ih =>
    intro rows run hrows
    obtain ⟨rows₁, ids, run₁, hload, hrows₁⟩ :=
      loadAlias_total run (hkeys c (List.mem_cons_self ..)) hrows
    obtain ⟨rows', run', hrest⟩ := ih (fun d hd => hkeys d (List.mem_cons_of_mem _ hd))
      { run₁ with sets := run₁.sets.set c.id ids } hrows₁
    refine ⟨rows', run', ?_⟩
    have hset : loadSet rows c run = .ok rows₁ { run₁ with sets := run₁.sets.set c.id ids } := by
      unfold loadSet
      rw [step_bind_of_ok hload]
      rfl
    rw [List.foldlM_cons, step_bind_of_ok hset]
    exact hrest

theorem fill_total (run : Run) (htree : plan.tree = t)
    (hkeys : ∀ c, c ∈ chain.commands.filterMap t.get? ∨ chain.source.bind t.get? = some c →
      ∀ field ∈ c.entity.primaryKey, label c.aliasName field ∈ labels)
    (hrows : ∀ row ∈ rows, row.Labelled labels) :
    ∃ rows' run', fill plan chain rows run = .ok rows' run' := by
  obtain ⟨rows₁, run₁, hsource, hrows₁⟩ : ∃ rows₁ run₁,
      loadSource plan chain rows run = .ok rows₁ run₁ ∧ ∀ row ∈ rows₁, row.Labelled labels := by
    unfold loadSource
    rw [htree]
    cases hsource : chain.source.bind t.get? with
    | none => exact ⟨rows, run, rfl, hrows⟩
    | some p =>
      obtain ⟨rows₁, ids, run₁, hload, hrows₁⟩ :=
        loadAlias_total run (hkeys p (.inr hsource)) hrows
      exact ⟨rows₁, run₁, by dsimp only; rw [step_bind_of_ok hload]; rfl, hrows₁⟩
  obtain ⟨rows', run', hsets⟩ := loadSets_total (fun c hc => hkeys c (.inl hc)) run₁ hrows₁
  refine ⟨rows', run', ?_⟩
  unfold fill
  rw [step_bind_of_ok hsource, htree]
  exact hsets

/-! ## Queries are made -/

theorem keyColumns_total (source : Command) : ∀ {fields : List String},
    (∀ field ∈ fields, field ∈ source.entity.columns.keys) →
      ∃ columns, keyColumns source fields = .ok columns
  | [], _ => ⟨[], rfl⟩
  | field :: rest, h => by
    obtain ⟨others, hothers⟩ :=
      keyColumns_total source fun f hf => h f (List.mem_cons_of_mem _ hf)
    obtain ⟨name, hname⟩ := Option.isSome_iff_exists.1
      ((OrderedMap.lookup_isSome_iff ..).2 (h field (List.mem_cons_self ..)))
    have hcolumn : source.entity.fieldExpr source.aliasName field =
        .ok (.column source.aliasName name) := by
      unfold Entity.fieldExpr
      rw [OrderedMap.get?, hname]
    refine ⟨.column source.aliasName name :: others, ?_⟩
    unfold keyColumns
    rw [hcolumn, except_ok_bind, hothers, except_ok_bind]
    rfl

theorem keyPartsOf_total {store : ObjectStore} : ∀ {objects : List Nat},
    (∀ i ∈ objects, i < store.size) → ∃ keys, keyPartsOf store objects = .ok keys
  | [], _ => ⟨[], rfl⟩
  | i :: rest, h => by
    obtain ⟨a, ha⟩ := ObjectStore.get?_of_lt (h i (List.mem_cons_self ..))
    obtain ⟨others, hothers⟩ := keyPartsOf_total fun j hj => h j (List.mem_cons_of_mem _ hj)
    refine ⟨a.key.parts :: others, ?_⟩
    unfold keyPartsOf
    rw [ha]
    dsimp only
    rw [hothers, except_ok_bind]
    rfl

theorem keyCondition_total (source : Command) {objects : List Nat} {store : ObjectStore}
    (h : ∀ i ∈ objects, i < store.size) :
    ∃ condition, keyCondition source objects store = .ok condition := by
  obtain ⟨columns, hcolumns⟩ := keyColumns_total source source.entity.primaryKey_declared
  obtain ⟨keys, hkeys⟩ := keyPartsOf_total h
  unfold keyCondition
  rw [hcolumns, except_ok_bind, hkeys, except_ok_bind]
  split <;> exact ⟨_, rfl⟩

/-- A chain of a plan always finds out which query to send. -/
theorem queryFor_total (ht : t.Ordered) (htree : plan.tree = t)
    (hshape : chain.toChainShape ∈ t.chainsFrom 0) (hstocked : Stocked t run) :
    ∃ query, queryFor plan chain run = .ok query run := by
  unfold queryFor
  cases hsource : chain.source with
  | none => exact ⟨_, rfl⟩
  | some s =>
    obtain ⟨p, hp⟩ : ∃ p, t.get? s = some p := by
      obtain ⟨root, hroot⟩ := CommandTree.get?_of_lt
        ((CommandTree.partition_chainsFrom ht).commands _ hshape _ (CommandTree.root_mem_commands hshape))
      have hparent := CommandTree.source_eq hshape hroot
      rw [hsource] at hparent
      obtain ⟨o, ho, rfl⟩ := Option.map_eq_some_iff.1 hparent.symm
      obtain ⟨-, p, hp, -⟩ := ht.sources hroot ho
      exact ⟨p, hp⟩
    have hcommand : commandOf plan s = .ok p := by
      unfold commandOf
      rw [htree, hp]
    have hbounded : ∀ i ∈ run.setOf s, i < run.store.size :=
      fun i hi => (hstocked s p hp i hi).lt
    obtain ⟨condition, hcondition⟩ := keyCondition_total p hbounded
    dsimp only
    by_cases hempty : (run.setOf s).isEmpty
    · refine ⟨none, ?_⟩
      show (if (run.setOf s).isEmpty then pure none else _ : Running (Option Select)) run = _
      rw [if_pos hempty]
      rfl
    · refine ⟨some (chain.query.restrict condition), ?_⟩
      show (if (run.setOf s).isEmpty then pure none else do
        let source ← lift (commandOf plan s)
        let condition ← lift (keyCondition source (run.setOf s) run.store)
        return some (chain.query.restrict condition) : Running (Option Select)) run = _
      rw [if_neg hempty, hcommand]
      show (do
        let condition ← lift (keyCondition p (run.setOf s) run.store)
        return some (chain.query.restrict condition) : Running (Option Select)) run = _
      rw [hcondition]
      rfl

/-- A chain whose statement is answered in full gets its rows. -/
theorem fetch_total {P : Schema → Prop} {cfg : Settings} (ht : t.Ordered)
    (hmade : Plan.Made P t cfg plan) (hchain : chain ∈ plan.chains) (hstocked : Stocked t run)
    (hanswer : ∀ query, queryFor plan chain run = .ok (some query) run →
      ∃ rows, executor (run.sent ++ [query.build plan.settings.dialect]) = .ok rows ∧
        ∀ row ∈ rows, row.Labelled (query.build plan.settings.dialect).labels) :
    ∃ found run', fetch executor plan chain run = .ok found run' := by
  have hshape : chain.toChainShape ∈ t.chainsFrom 0 := hmade.shapes ▸ List.mem_map_of_mem hchain
  obtain ⟨query, hquery⟩ := queryFor_total ht hmade.tree hshape hstocked
  unfold fetch
  rw [step_bind_of_ok hquery]
  cases query with
  | none => exact ⟨none, run, rfl⟩
  | some query =>
    obtain ⟨rows, hrows, hlabelled⟩ := hanswer query hquery
    -- a restriction to keys changes no label
    have hlabels : (query.build plan.settings.dialect).labels = chain.query.labels := by
      obtain ⟨-, ⟨-, heq⟩ | ⟨_, -, ⟨-, heq⟩ | ⟨-, _, _, -, -, heq⟩⟩⟩ := queryFor_ok hquery <;>
        cases heq <;> rfl
    have hsend : send executor (query.build plan.settings.dialect) run =
        .ok rows { run with sent := run.sent ++ [query.build plan.settings.dialect] } := by
      unfold send
      show (lift ((executor (run.sent ++ [query.build plan.settings.dialect])).mapError _)) _ = _
      rw [hrows]
      rfl
    obtain ⟨filled, run', hfill⟩ := fill_total
      { run with sent := run.sent ++ [query.build plan.settings.dialect] } hmade.tree
      (fun c hc field hfield => hlabels.symm ▸ hmade.key_labels ht hchain hc hfield) hlabelled
    refine ⟨some filled, run', ?_⟩
    dsimp only
    rw [step_bind_of_ok hsend, step_bind_of_ok hfill]
    rfl

end Run

end GraphLoad
