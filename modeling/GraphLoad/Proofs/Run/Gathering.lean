/-
What rows bring. Whatever rows a chain is hydrated with, each of its sets comes to hold the objects of the
keys that the rows have for it, those of null keys apart; and the condition that a chain is restricted by
depends on nothing but which objects its source set holds.
-/
import GraphLoad.Proofs.Object.Hashing
import GraphLoad.Proofs.Run.Footprint
import GraphLoad.Proofs.Run.Keys

namespace GraphLoad

open Sql

/-! ## The keys of rows -/

/-- An object that stands for an entity and a key is the object of that key. -/
theorem ObjectStore.Stands.identity {s : ObjectStore} {entity : String} {key : Key} {i : Nat}
    (h : s.Stands entity key i) : s.identity? i = some (entity, key) := by
  obtain ⟨a, ha, hfor⟩ := h
  obtain ⟨hentity, hmeets⟩ := Record.isFor_iff.1 hfor
  exact identity?_eq_some.2 ⟨a, ha, by rw [hentity, Key.eq_of_meets hmeets]⟩

namespace Entity

variable {e : Entity} {aliasName : String} {row row' : Row} {rows rows' : List Row}
  {s s' : ObjectStore} {ids : List Nat} {x : Identity}

theorem keyParts_congr : ∀ {fields : List String},
    (∀ field ∈ fields, row'.value? aliasName field = row.value? aliasName field) →
      keyParts aliasName row' fields = keyParts aliasName row fields
  | [], _ => rfl
  | field :: rest, h => by
    unfold keyParts Row.require
    rw [h field (List.mem_cons_self ..), keyParts_congr fun f hf => h f (List.mem_cons_of_mem _ hf)]

theorem rowKey_congr
    (h : ∀ field ∈ e.primaryKey, row'.value? aliasName field = row.value? aliasName field) :
    e.rowKey row' aliasName = e.rowKey row aliasName := by
  unfold rowKey
  rw [keyParts_congr h]

/-- Whether a row has the key of an object under an alias. -/
def Brings (e : Entity) (aliasName : String) (row : Row) (x : Identity) : Prop :=
  ∃ key, e.rowKey row aliasName = .ok key ∧ key.isNull = false ∧ (e.name, key) = x

theorem brings_congr (h : e.rowKey row' aliasName = e.rowKey row aliasName) :
    e.Brings aliasName row' x ↔ e.Brings aliasName row x := by
  unfold Brings
  rw [h]

/-- Loading an alias finds the objects whose keys the rows have. -/
theorem Loads.brings (h : e.Loads aliasName rows s rows' s' ids) (x : Identity) :
    (∃ k ∈ ids, s'.identity? k = some x) ↔ ∃ row ∈ rows, e.Brings aliasName row x := by
  constructor
  · rintro ⟨k, hk, hx⟩
    obtain ⟨row', hrow', hobject⟩ := (h.members k).1 hk
    obtain ⟨row, hrow, key, o, hkey, rfl, ho⟩ := forall₂_mem_right h.placed row' hrow'
    rw [Row.object_setObject] at hobject
    cases hobject
    rcases ho with ⟨-, ho⟩ | ⟨hnull, k', ho, hstands⟩
    · cases ho
    · cases ho
      rw [hstands.identity] at hx
      exact ⟨row, hrow, key, hkey, hnull, Option.some.inj hx⟩
  · rintro ⟨row, hrow, key, hkey, hnull, rfl⟩
    obtain ⟨row', hrow', key', o, hkey', rfl, ho⟩ := forall₂_mem_left h.placed row hrow
    rw [hkey] at hkey'
    cases hkey'
    rcases ho with ⟨hyes, -⟩ | ⟨-, k, rfl, hstands⟩
    · rw [hnull] at hyes
      cases hyes
    · exact ⟨k, (h.members k).2 ⟨_, hrow', Row.object_setObject ..⟩, hstands.identity⟩

/-- The objects that rows are given play no part in the keys they have. -/
theorem Loads.brings_after {d : Entity} {a : String} (h : e.Loads aliasName rows s rows' s' ids) :
    (∃ row ∈ rows', d.Brings a row x) ↔ ∃ row ∈ rows, d.Brings a row x := by
  have hcells : ∀ (row : Row) (o : Option Nat),
      d.rowKey (row.setObject aliasName o) a = d.rowKey row a := fun row o =>
    rowKey_congr fun _ _ => rfl
  constructor
  · rintro ⟨row', hrow', hx⟩
    obtain ⟨row, hrow, _, o, -, rfl, -⟩ := forall₂_mem_right h.placed row' hrow'
    exact ⟨row, hrow, (brings_congr (hcells row o)).1 hx⟩
  · rintro ⟨row, hrow, hx⟩
    obtain ⟨row', hrow', _, o, -, rfl, -⟩ := forall₂_mem_left h.placed row hrow
    exact ⟨_, hrow', (brings_congr (hcells row o)).2 hx⟩

end Entity

namespace Run

variable {t : CommandTree} {plan : Plan} {chain : Chain} {done : List String}
  {rows rows' : List Row} {run run' : Run} {c : Command} {i : Nat} {x : Identity}

/-! ## The sets of a chain -/

/-- Whether a set holds the object of an identity. -/
def Contains (run : Run) (i : Nat) (x : Identity) : Prop :=
  ∃ k ∈ run.setOf i, run.store.identity? k = some x

/-- A set holds what it held while the store grows. -/
theorem WF.contains_grow (h : run.WF t) (hc : t.get? i = some c)
    (hext : run.store.Extends run'.store) (hset : run'.setOf i = run.setOf i) :
    run'.Contains i x ↔ run.Contains i x := by
  unfold Contains
  rw [hset]
  refine exists_congr fun k => and_congr_right fun hk => ?_
  obtain ⟨a, ha, -⟩ := h.members hc k hk
  exact ObjectStore.identity?_iff hext (ObjectStore.get?_lt ha)

/-- A set that lists objects holds some. -/
theorem WF.contains_some (h : run.WF t) (hc : t.get? i = some c) :
    (∃ x, run.Contains i x) ↔ run.setOf i ≠ [] := by
  constructor
  · rintro ⟨x, k, hk, -⟩
    exact List.ne_nil_of_mem hk
  · intro hne
    obtain ⟨k, hk⟩ := List.exists_mem_of_ne_nil _ hne
    obtain ⟨a, ha, -⟩ := h.members hc k hk
    exact ⟨_, k, hk, ObjectStore.identity?_eq_some.2 ⟨a, ha, rfl⟩⟩

theorem loadSource_brings {d : Entity} {a : String} (h : Hydrating t [] rows run)
    (hload : loadSource plan chain rows run = .ok rows' run') :
    (∃ done, Hydrating t done rows' run') ∧
      ((∃ row ∈ rows', d.Brings a row x) ↔ ∃ row ∈ rows, d.Brings a row x) := by
  rcases loadSource_ok h.wf.store h.regular hload with ⟨-, rfl, rfl⟩ | ⟨p, ids, -, hloads, hrun⟩
  · exact ⟨⟨[], h⟩, Iff.rfl⟩
  · exact ⟨⟨_, h.load hloads (h.wf.grow hloads.wf hloads.grows (by rw [hrun]))⟩, hloads.brings_after⟩

/-- A set holds what the rows bring that it is loaded from. -/
theorem loadSet_brings (h : Hydrating t done rows run) (hlt : c.id < run.sets.length)
    (hload : loadSet rows c run = .ok rows' run') :
    run'.Contains c.id x ↔ ∃ row ∈ rows, c.entity.Brings c.aliasName row x := by
  obtain ⟨ids, hloads, -, hrun⟩ := loadSet_ok h.wf.store h.regular hload
  have hset : run'.setOf c.id = ids := by
    rw [hrun, setOf_set run run'.store, if_pos ⟨rfl, hlt⟩]
  unfold Contains
  rw [hset]
  exact hloads.brings x

theorem loadSets_brings {commands : List Command} :
    ∀ {done : List String} {rows : List Row} {run : Run}, Hydrating t done rows run →
      run.sets.length = t.size → (commands.map Command.id).Nodup →
      (∀ c ∈ commands, t.get? c.id = some c) →
      commands.foldlM loadSet rows run = .ok rows' run' → ∀ c ∈ commands, ∀ x,
        run'.Contains c.id x ↔ ∃ row ∈ rows, c.entity.Brings c.aliasName row x := by
  induction commands with
  | nil => exact fun _ _ _ _ _ c hc => nomatch hc
  | cons c commands ih =>
    intro done rows run h hlength hnodup hself hload
    rw [List.foldlM_cons] at hload
    obtain ⟨rows₁, run₁, hfirst, hrest⟩ := step_bind_ok hload
    rw [List.map_cons, List.nodup_cons] at hnodup
    have hget := hself c (List.mem_cons_self ..)
    have hlt : c.id < run.sets.length := by
      rw [hlength]
      exact CommandTree.get?_lt hget
    have h₁ := h.loadSet (fun hd => Option.some.inj (hd.symm.trans hget)) hfirst
    have honward : Onward [c.id] run run₁ := (loadSet_onward (List.mem_cons_self ..)).ok hfirst
    intro d hd x
    rcases List.mem_cons.1 hd with rfl | hd
    · -- loading the other sets leaves this one as it is
      have hrests := (loadSets_onward fun e he => List.mem_map_of_mem he).ok hrest
      rw [h₁.wf.contains_grow hget hrests.retains.grows (hrests.sets _ hnodup.1)]
      exact loadSet_brings h hlt hfirst
    · obtain ⟨ids, hloads, -, -⟩ := loadSet_ok h.wf.store h.regular hfirst
      rw [ih h₁ (honward.count.trans hlength) hnodup.2
        (fun e he => hself e (List.mem_cons_of_mem _ he)) hrest d hd x]
      exact hloads.brings_after

/-- Hydrating rows makes the sets of a chain hold what the rows bring. -/
theorem hydrate_brings (ht : t.Ordered) (htree : plan.tree = t)
    (hshape : chain.toChainShape ∈ t.chainsFrom 0) (hwf : run.WF t)
    (hlength : run.sets.length = t.size) (hregular : ∀ row ∈ rows, row.Regular)
    (hydrated : hydrate plan chain rows run = .ok ⟨⟩ run') :
    ∀ c ∈ chain.commands.filterMap t.get?, ∀ x,
      run'.Contains c.id x ↔ ∃ row ∈ rows, c.entity.Brings c.aliasName row x := by
  intro c hc x
  obtain ⟨rows₁, run₁, rows₂, run₂, run₃, hsource, hsets, hlinks, hinit⟩ := hydrate_ok hydrated
  rw [htree] at hsets hlinks
  have hself : ∀ c ∈ chain.commands.filterMap t.get?, t.get? c.id = some c := fun c hc =>
    (id_mem_of_command ht hc).1
  have hids : ((chain.commands.filterMap t.get?).map Command.id).Nodup := by
    rw [List.map_filterMap]
    refine List.Nodup.filterMap (fun i j a hi hj => ?_)
      ((List.nodup_flatMap.1 (CommandTree.nodup_commands ht)).1 _ hshape)
    obtain ⟨c, hc, rfl⟩ := Option.map_eq_some_iff.1 hi
    obtain ⟨d, hd, heq⟩ := Option.map_eq_some_iff.1 hj
    rw [← ht.ids hc, ← ht.ids hd]
    exact heq.symm
  have hstart : Hydrating t [] rows run := ⟨hwf, hregular, fun a ha => nomatch ha⟩
  obtain ⟨⟨done, h₁⟩, hsame⟩ := loadSource_brings (x := x) (d := c.entity) (a := c.aliasName) hstart
    hsource
  have hfirst : Onward [] run run₁ := loadSource_onward.ok hsource
  have hloaded := loadSets_brings h₁ (hfirst.count.trans hlength) hids hself hsets c hc x
  -- linking changes no set
  have hlinked : Onward [] run₂ run₃ := linkSets_onward.ok hlinks
  have h₂ := h₁.loadSets (fun d hd {e} he => Option.some.inj (he.symm.trans (hself d hd))) hsets
  have hafter := hlinked.trans (initSource_onward.ok hinit)
  rw [h₂.wf.contains_grow (hself c hc) hafter.retains.grows (hafter.sets _ List.not_mem_nil), hloaded,
    hsame]

/-! ## The condition on a source set -/

variable {source source' : Command} {objects objects' : List Nat} {store store' : ObjectStore}

/-- The keys of objects are the second components of their identities. -/
theorem mem_keyPartsOf {keys : List (List Value)} (h : keyPartsOf store objects = .ok keys)
    (parts : List Value) : parts ∈ keys ↔
      ∃ x : Identity, (∃ k ∈ objects, store.identity? k = some x) ∧ x.2.parts = parts := by
  have hkeys := keyPartsOf_ok h
  constructor
  · intro hparts
    obtain ⟨k, hk, a, ha, rfl⟩ := forall₂_mem_right hkeys parts hparts
    exact ⟨_, ⟨k, hk, ObjectStore.identity?_eq_some.2 ⟨a, ha, rfl⟩⟩, rfl⟩
  · rintro ⟨x, ⟨k, hk, hx⟩, rfl⟩
    obtain ⟨parts, hparts, a, ha, rfl⟩ := forall₂_mem_left hkeys k hk
    obtain ⟨b, hb, rfl⟩ := ObjectStore.identity?_eq_some.1 hx
    rw [ha] at hb
    cases hb
    exact hparts

end Run

namespace Sql.Condition

variable {db : Database} {env env' : Env} {cs ds : List Condition}

/-- The truth of a choice depends on which conditions there are to choose from. -/
theorem truth_anyOf_congr (h : ∀ c, c ∈ ds ↔ c ∈ cs)
    (htrue : ∀ c ∈ cs, (db.truth env' c = some true ↔ db.truth env c = some true)) :
    db.truth env' (anyOf ds) = some true ↔ db.truth env (anyOf cs) = some true := by
  have hany : ∀ (env : Env) (cs : List Condition), db.truth env (anyOf cs) = some true ↔
      present cs = [] ∨ ∃ c ∈ present cs, db.truth env c = some true := by
    intro env cs
    rw [truth_anyOf]
    split
    · rename_i hnil
      simp [List.isEmpty_iff.1 hnil]
    · rename_i hne
      rw [Database.truthAny_eq_true, or_iff_right (by rwa [List.isEmpty_iff] at hne)]
  have hpresent : ∀ c, c ∈ present ds ↔ c ∈ present cs := by
    intro c
    unfold present
    rw [List.mem_filter, List.mem_filter, h]
  rw [hany, hany, List.eq_nil_iff_forall_not_mem, List.eq_nil_iff_forall_not_mem]
  simp only [hpresent]
  refine or_congr_right (exists_congr fun c => and_congr_right fun hc => ?_)
  exact htrue c (List.mem_filter.1 hc).1

end Sql.Condition

namespace Run

variable {db : Database} {env env' : Env} {source source' : Command} {objects objects' : List Nat}
  {store store' : ObjectStore} {condition condition' : Condition}

/-- Two sources that hold the same objects restrict alike, wherever the same stands under them. -/
theorem keyCondition_congr (h : keyCondition source objects store = .ok condition)
    (h' : keyCondition source' objects' store' = .ok condition')
    (hentity : source'.entity = source.entity) (halias : source'.aliasName = source.aliasName)
    (hsame : ∀ x, (∃ k ∈ objects', store'.identity? k = some x) ↔
      ∃ k ∈ objects, store.identity? k = some x)
    (henv : env' source.aliasName = env source.aliasName) :
    db.truth env' condition' = some true ↔ db.truth env condition = some true := by
  unfold keyCondition at h h'
  rw [hentity] at h'
  obtain ⟨columns, hcolumns, h⟩ := except_bind_ok h
  obtain ⟨columns', hcolumns', h'⟩ := except_bind_ok h'
  obtain ⟨keys, hkeys, h⟩ := except_bind_ok h
  obtain ⟨keys', hkeys', h'⟩ := except_bind_ok h'
  have hcolumn : columns' = columns := by
    rw [keyColumns_ok hcolumns, keyColumns_ok hcolumns', hentity, halias]
  have hmem : ∀ parts, parts ∈ keys' ↔ parts ∈ keys := fun parts => by
    rw [mem_keyPartsOf hkeys, mem_keyPartsOf hkeys']
    simp only [hsame]
  have heval : ∀ column ∈ columns, Expr.eval db env' column = Expr.eval db env column := by
    intro column hin
    rw [keyColumns_ok hcolumns] at hin
    obtain ⟨field, -, rfl⟩ := List.mem_map.1 hin
    unfold Expr.eval
    dsimp only
    rw [henv]
  subst hcolumn
  split at h
  · -- a single column, whose values are the last parts of the keys
    cases h
    cases h'
    rw [Database.truth, Database.truth, among_eq_true, among_eq_true,
      heval _ (List.mem_singleton_self _)]
    simp only [List.mem_filterMap, hmem]
  · rename_i hsingle
    cases h
    split at h'
    · exact (hsingle _ rfl).elim
    cases h'
    refine Condition.truth_anyOf_congr (fun c => ?_) fun c hc => ?_
    · simp only [List.mem_map, hmem]
    · obtain ⟨key, -, rfl⟩ := List.mem_map.1 hc
      rw [Condition.truth_allOf, Condition.truth_allOf, Database.truthAll_eq_true,
        Database.truthAll_eq_true]
      refine forall₂_congr fun c hc => ?_
      obtain ⟨p, hp, rfl⟩ := List.mem_map.1 hc
      rw [Database.truth, Database.truth, heval p.1 (List.of_mem_zip hp).1]

end Run

end GraphLoad
