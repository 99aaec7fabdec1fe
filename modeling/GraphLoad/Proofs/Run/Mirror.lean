/-
Loading the rows of a chain. The rows that a statement answers come from environments; once the sets
of the chain are loaded, every row holds the object of whatever stands in its environment, every set
lists the objects of the rows that the tree reaches, and no object stands for anything else.
-/
import GraphLoad.Proofs.Run.Answers

namespace GraphLoad

open Sql

namespace Run

/-- Whether an identity is that of a row that a tree reaches. -/
def Known (db : Database) (t : CommandTree) (x : Identity) : Prop :=
  ∃ i c u, t.get? i = some c ∧ Reach db t i u ∧ c.entity.identityOf u = x

/-- A run that has loaded the sets of `D`, and whose store shows the facts of `F`. -/
structure Progress (db : Database) (t : CommandTree) (D : Nat → Prop) (F : Fact → Prop) (run : Run) :
    Prop where
  wf : run.WF t
  length : run.sets.length = t.size
  known : ∀ i x, run.store.identity? i = some x → Known db t x
  found : ∀ j, D j → run.Found db t j
  rest : ∀ j, ¬ D j → run.setOf j = []
  shows : run.store.Shows F

/-- A row that comes from an environment and holds the objects of what stands there for the sets of
`done`. -/
structure Holds (db : Database) (q : Select) (ident : Nat → Option Identity) (done : List Command)
    (env : Env) (row : Row) : Prop where
  cells : row.cells = (db.row q env).cells
  objects : ∀ c ∈ done, ∃ o, row.object c.aliasName = .ok o ∧
    o.map ident = (env c.aliasName).map fun u => some (c.entity.identityOf u)

/-- Rows that come from the environments of `E`. -/
structure Mirrors (db : Database) (q : Select) (ident : Nat → Option Identity) (done : List Command)
    (E : Env → Prop) (rows : List Row) : Prop where
  sound : ∀ row ∈ rows, ∃ env, E env ∧ Holds db q ident done env row
  complete : ∀ env, E env → ∃ row ∈ rows, Holds db q ident done env row

/-- A run in the middle of loading rows that come from the environments of `E`. -/
structure Mirroring (db : Database) (t : CommandTree) (q : Select) (E : Env → Prop) (D : Nat → Prop)
    (F : Fact → Prop) (done : List Command) (rows : List Row) (run : Run) : Prop where
  progress : Progress db t D F run
  regular : ∀ row ∈ rows, row.Regular
  mirrors : Mirrors db q run.store.identity? done E rows

/-- What a set of a chain brings along to be loaded: its key is selected, and what stands under its
alias is reached. -/
structure Loadable (db : Database) (t : CommandTree) (fields : List (Command × String))
    (E : Env → Prop) (c : Command) : Prop where
  get : t.get? c.id = some c
  keys : ∀ field ∈ c.entity.primaryKey, (c, field) ∈ fields
  reach : ∀ env u, E env → env c.aliasName = some u → Reach db t c.id u

variable {db : Database} {t : CommandTree} {q : Select} {fields : List (Command × String)}
  {E : Env → Prop} {D : Nat → Prop} {F : Fact → Prop} {done : List Command} {rows rows' : List Row}
  {run run' : Run} {c : Command}

/-! ## Identities -/

/-- The object of a key that a row of a table has is the object of that row. -/
theorem identity_of_stands (hg : Grounded db t) {s : ObjectStore}
    (hknown : ∀ i x, s.identity? i = some x → Known db t x) {i k : Nat} (hc : t.get? i = some c)
    {u : Tuple} (hu : u ∈ db.tuples (.named c.entity.table))
    (h : s.Stands c.entity.name (c.entity.keyOf u) k) :
    s.identity? k = some (c.entity.identityOf u) := by
  obtain ⟨a, ha, hfor⟩ := h
  obtain ⟨hentity, hmeets⟩ := Record.isFor_iff.1 hfor
  have hident := ObjectStore.identity?_eq_some.2 ⟨a, ha, rfl⟩
  obtain ⟨j, d, v, hd, hv, heq⟩ := hknown k _ hident
  obtain ⟨hname, hkey⟩ := Prod.mk.inj heq
  have hsame := hg.named hd hc (hname.trans hentity)
  have hin := hv.mem_tuples hg.ordered hg.plain hd
  rw [hsame] at hkey hin
  rw [← hkey] at hmeets
  have huv := (hg.keyed hc).unique v hin u hu (Key.meets_iff.1 hmeets).1
  rw [hident, ← huv, Entity.identityOf, ← hentity, hkey]

/-- A set stays found while the store grows. -/
theorem Found.grow {j : Nat} (h : run.Found db t j) (hwf : run.WF t)
    (hext : run.store.Extends run'.store) (hset : run'.setOf j = run.setOf j) :
    run'.Found db t j := by
  intro d hd x
  rw [← h d hd x, hset]
  refine exists_congr fun k => and_congr_right fun hk => ?_
  obtain ⟨a, ha, -⟩ := hwf.members hd k hk
  exact ObjectStore.identity?_iff hext (ObjectStore.get?_lt ha)

/-! ## Loading one alias -/

section
variable (hg : Grounded db t) (hselects : Selects fields q) (hapart : Apart fields)
include hg hselects hapart

/-- The key that a row has for a set is that of what stands under its alias. -/
theorem rowKey_holds {ident : Nat → Option Identity} (hc : Loadable db t fields E c) {env : Env}
    {row : Row} (henv : E env) (h : Holds db q ident done env row) {key : Key}
    (hkey : c.entity.rowKey row c.aliasName = .ok key) :
    (env c.aliasName = none ∧ key.isNull = true) ∨
      ∃ u, env c.aliasName = some u ∧ key = c.entity.keyOf u ∧ key.isNull = false := by
  rw [rowKey_row hselects hapart hc.keys h.cells] at hkey
  cases hkey
  cases hu : env c.aliasName with
  | none => exact .inl ⟨rfl, cells_none hu⟩
  | some u =>
    refine .inr ⟨u, rfl, cells_some hu, ?_⟩
    rw [cells_some hu]
    have hin := (hc.reach env u henv hu).mem_tuples hg.ordered hg.plain hc.get
    exact (hg.keyed hc.get).not_null hin

/-- Loading a set makes objects only of rows that are reached. -/
theorem known_loads {ids : List Nat} {s s' : ObjectStore} (hc : Loadable db t fields E c)
    (hknown : ∀ i x, s.identity? i = some x → Known db t x)
    (hrows : ∀ row ∈ rows, ∃ env, E env ∧ Holds db q s.identity? done env row)
    (hloads : c.entity.Loads c.aliasName rows s rows' s' ids) :
    ∀ i x, s'.identity? i = some x → Known db t x := by
  intro i x hx
  obtain ⟨b, hb, rfl⟩ := ObjectStore.identity?_eq_some.1 hx
  rcases hloads.made i b hb with ⟨a, ha, he, hk⟩ | ⟨he, row, hrow, hk⟩
  · rw [he, hk]
    exact hknown i _ (ObjectStore.identity?_eq_some.2 ⟨a, ha, rfl⟩)
  · obtain ⟨env, henv, hholds⟩ := hrows row hrow
    rcases rowKey_holds hg hselects hapart hc henv hholds hk with ⟨-, hnull⟩ | ⟨u, hu, hkey, -⟩
    · rw [(hloads.wf.keyed hb).2] at hnull
      cases hnull
    · exact ⟨c.id, c, u, hc.get, hc.reach env u henv hu, by rw [Entity.identityOf, he, hkey]⟩

/-- Loading a set gives every row the object of what stands under its alias. -/
theorem Holds.load {s s' : ObjectStore} (hc : Loadable db t fields E c)
    (hnew : c.aliasName ∉ done.map Command.aliasName) (hext : s.Extends s')
    (hknown : ∀ i x, s'.identity? i = some x → Known db t x) {env : Env} {row row' : Row}
    (henv : E env) (h : Holds db q s.identity? done env row)
    (hplaced : c.entity.Placed c.aliasName s' row row') :
    Holds db q s'.identity? (c :: done) env row' := by
  obtain ⟨key, o, hkey, rfl, ho⟩ := hplaced
  refine ⟨h.cells, fun d hd => ?_⟩
  rcases List.mem_cons.1 hd with rfl | hd
  · refine ⟨o, Row.object_setObject .., ?_⟩
    rcases rowKey_holds hg hselects hapart hc henv h hkey with ⟨hnone, hnull⟩ | ⟨u, hu, rfl, hnull⟩
    · rcases ho with ⟨-, rfl⟩ | ⟨hpresent, -⟩
      · rw [hnone]
        rfl
      · rw [hnull] at hpresent
        cases hpresent
    · rcases ho with ⟨habsent, -⟩ | ⟨-, k, rfl, hstands⟩
      · rw [hnull] at habsent
        cases habsent
      · have hin := (hc.reach env u henv hu).mem_tuples hg.ordered hg.plain hc.get
        rw [hu, Option.map_some, Option.map_some, identity_of_stands hg hknown hc.get hin hstands]
  · have hne : d.aliasName ≠ c.aliasName := by
      intro heq
      exact hnew (heq ▸ List.mem_map_of_mem hd)
    obtain ⟨p, hp, hident⟩ := h.objects d hd
    refine ⟨p, by rw [Row.object_setObject_of_ne row hne]; exact hp, ?_⟩
    rw [← hident]
    cases p with
    | none => rfl
    | some k =>
      obtain ⟨u, -, hu⟩ := Option.map_eq_some_iff.1 hident.symm
      rw [Option.map_some, Option.map_some, ← hu, ObjectStore.identity?_extends hext hu.symm]

theorem Mirrors.load {ids : List Nat} {s s' : ObjectStore}
    (h : Mirrors db q s.identity? done E rows) (hc : Loadable db t fields E c)
    (hnew : c.aliasName ∉ done.map Command.aliasName)
    (hknown : ∀ i x, s.identity? i = some x → Known db t x)
    (hloads : c.entity.Loads c.aliasName rows s rows' s' ids) :
    Mirrors db q s'.identity? (c :: done) E rows' := by
  have hknown' := known_loads hg hselects hapart hc hknown h.sound hloads
  constructor
  · intro row' hrow'
    obtain ⟨row, hrow, hplaced⟩ := forall₂_mem_right hloads.placed row' hrow'
    obtain ⟨env, henv, hholds⟩ := h.sound row hrow
    exact ⟨env, henv,
      hholds.load hg hselects hapart hc hnew hloads.grows hknown' henv hplaced⟩
  · intro env henv
    obtain ⟨row, hrow, hholds⟩ := h.complete env henv
    obtain ⟨row', hrow', hplaced⟩ := forall₂_mem_left hloads.placed row hrow
    exact ⟨row', hrow',
      hholds.load hg hselects hapart hc hnew hloads.grows hknown' henv hplaced⟩

end

/-- The objects that a row holds are in the store. -/
theorem Holds.valid {s : ObjectStore} {env : Env} {row : Row}
    (h : Holds db q s.identity? done env row) (hc : c ∈ done) : row.Valid s c.aliasName := by
  intro k hk
  obtain ⟨o, ho, hident⟩ := h.objects c hc
  rw [ho] at hk
  cases hk
  obtain ⟨u, -, hu⟩ := Option.map_eq_some_iff.1 hident.symm
  exact ObjectStore.identity?_lt hu.symm

/-- The objects that rows hold for a set are those of what stands under its alias. -/
theorem Mirrors.objects {ident : Nat → Option Identity} (h : Mirrors db q ident done E rows)
    (hc : c ∈ done) (x : Identity) :
    (∃ row ∈ rows, ∃ k, row.object c.aliasName = .ok (some k) ∧ ident k = some x) ↔
      ∃ env u, E env ∧ env c.aliasName = some u ∧ c.entity.identityOf u = x := by
  constructor
  · rintro ⟨row, hrow, k, hk, hx⟩
    obtain ⟨env, henv, hholds⟩ := h.sound row hrow
    obtain ⟨o, ho, hident⟩ := hholds.objects c hc
    rw [ho] at hk
    cases hk
    obtain ⟨u, hu, heq⟩ := Option.map_eq_some_iff.1 hident.symm
    rw [hx] at heq
    exact ⟨env, u, henv, hu, Option.some.inj heq⟩
  · rintro ⟨env, u, henv, hu, rfl⟩
    obtain ⟨row, hrow, hholds⟩ := h.complete env henv
    obtain ⟨o, ho, hident⟩ := hholds.objects c hc
    rw [hu, Option.map_some] at hident
    obtain ⟨k, rfl, hk⟩ := Option.map_eq_some_iff.1 hident
    exact ⟨row, hrow, k, ho, hk⟩

theorem Mirroring.hydrating (h : Mirroring db t q E D F done rows run) :
    Hydrating t (done.map Command.aliasName) rows run := by
  refine ⟨h.progress.wf, h.regular, fun a ha row hrow => ?_⟩
  obtain ⟨c, hc, rfl⟩ := List.mem_map.1 ha
  obtain ⟨env, -, hholds⟩ := h.mirrors.sound row hrow
  exact hholds.valid hc

/-! ## Loading the sets of a chain -/

section
variable (hg : Grounded db t) (hselects : Selects fields q) (hapart : Apart fields)
include hg hselects hapart

/-- The source of a chain is loaded, and what is found is what was found before. -/
theorem Mirroring.loadSource {plan : Plan} {chain : Chain}
    (h : Mirroring db t q E D F [] rows run) (htree : plan.tree = t)
    (hsource : ∀ p, chain.source.bind t.get? = some p → Loadable db t fields E p)
    (hload : Run.loadSource plan chain rows run = .ok rows' run') :
    Mirroring db t q E D F (chain.source.bind t.get?).toList rows' run' := by
  rcases loadSource_ok h.progress.wf.store h.regular hload with
    ⟨hnone, rfl, rfl⟩ | ⟨p, ids, hp, hloads, hrun⟩
  · rw [htree] at hnone
    rw [hnone]
    exact h
  · rw [htree] at hp
    rw [hp]
    have hc := hsource p hp
    have hset : ∀ j, run'.setOf j = run.setOf j := fun j => by rw [hrun]; rfl
    have hwf := h.progress.wf.grow hloads.wf hloads.grows (by rw [hrun])
    have hknown := known_loads hg hselects hapart hc h.progress.known h.mirrors.sound hloads
    refine ⟨⟨hwf, ?_, hknown, fun j hj => ?_, fun j hj => ?_, ?_⟩, ?_, ?_⟩
    · rw [hrun]
      exact h.progress.length
    · exact (h.progress.found j hj).grow h.progress.wf hloads.grows (hset j)
    · rw [hset]
      exact h.progress.rest j hj
    · exact h.progress.shows.grow h.progress.wf.store hloads.wf hloads.grows hloads.related
    · exact (h.hydrating.load hloads hwf).regular
    · exact h.mirrors.load hg hselects hapart hc (List.not_mem_nil) h.progress.known hloads

omit hg hselects hapart in
/-- The objects that rows hold for a set are those of the rows that the tree reaches for it. -/
theorem members_iff {ident : Nat → Option Identity} {ids : List Nat}
    (h : Mirrors db q ident done E rows) (hdone : c ∈ done) (hc : Loadable db t fields E c)
    (hall : ∀ u, Reach db t c.id u → ∃ env, E env ∧ env c.aliasName = some u)
    (hids : ∀ k, k ∈ ids ↔ ∃ row ∈ rows, row.object c.aliasName = .ok (some k)) (x : Identity) :
    (∃ k ∈ ids, ident k = some x) ↔ ∃ u, Reach db t c.id u ∧ c.entity.identityOf u = x := by
  have hrows : (∃ k ∈ ids, ident k = some x) ↔
      ∃ row ∈ rows, ∃ k, row.object c.aliasName = .ok (some k) ∧ ident k = some x := by
    constructor
    · rintro ⟨k, hk, hx⟩
      obtain ⟨row, hrow, ho⟩ := (hids k).1 hk
      exact ⟨row, hrow, k, ho, hx⟩
    · rintro ⟨row, hrow, k, ho, hx⟩
      exact ⟨k, (hids k).2 ⟨row, hrow, ho⟩, hx⟩
  rw [hrows, h.objects hdone]
  constructor
  · rintro ⟨env, u, henv, hu, heq⟩
    exact ⟨u, hc.reach env u henv hu, heq⟩
  · rintro ⟨u, hu, heq⟩
    obtain ⟨env, henv, hrow⟩ := hall u hu
    exact ⟨env, u, henv, hrow, heq⟩

/-- A set is loaded: it holds the objects of the rows that are reached for it. -/
theorem Mirroring.loadSet (h : Mirroring db t q E D F done rows run)
    (hc : Loadable db t fields E c) (hnew : c.aliasName ∉ done.map Command.aliasName)
    (hall : ∀ u, Reach db t c.id u → ∃ env, E env ∧ env c.aliasName = some u)
    (hload : Run.loadSet rows c run = .ok rows' run') :
    Mirroring db t q E (fun j => D j ∨ j = c.id) F (c :: done) rows' run' := by
  have hhydrating := h.hydrating.loadSet (fun hd => Option.some.inj (hd.symm.trans hc.get)) hload
  obtain ⟨ids, hloads, -, hrun⟩ := loadSet_ok h.progress.wf.store h.regular hload
  have hset : ∀ j, run'.setOf j = if c.id = j ∧ j < run.sets.length then ids else run.setOf j := by
    intro j
    rw [hrun]
    exact setOf_set run run'.store c.id ids j
  have hother : ∀ j, j ≠ c.id → run'.setOf j = run.setOf j := by
    intro j hj
    rw [hset, if_neg fun h => hj h.1.symm]
  have hmirrors := h.mirrors.load hg hselects hapart hc hnew h.progress.known hloads
  refine ⟨⟨hhydrating.wf, ?_, ?_, fun j hj => ?_, fun j hj => ?_, ?_⟩, hhydrating.regular, hmirrors⟩
  · rw [hrun]
    exact (List.length_set ..).trans h.progress.length
  · exact known_loads hg hselects hapart hc h.progress.known h.mirrors.sound hloads
  · by_cases hjc : j = c.id
    · -- the new set lists what its rows hold
      subst hjc
      intro d hd x
      rw [hc.get] at hd
      cases hd
      have hlt : c.id < run.sets.length := by
        rw [h.progress.length]
        exact CommandTree.get?_lt hc.get
      rw [hset, if_pos ⟨rfl, hlt⟩]
      exact members_iff hmirrors (List.mem_cons_self ..) hc hall hloads.members x
    · exact (h.progress.found j (hj.resolve_right hjc)).grow h.progress.wf hloads.grows
        (hother j hjc)
  · rw [not_or] at hj
    rw [hother j hj.2]
    exact h.progress.rest j hj.1
  · exact h.progress.shows.grow h.progress.wf.store hloads.wf hloads.grows hloads.related

theorem Mirroring.loadSets {commands : List Command} :
    ∀ {D : Nat → Prop} {done : List Command} {rows : List Row} {run : Run},
      Mirroring db t q E D F done rows run →
      ((done ++ commands).map Command.aliasName).Nodup →
      (∀ c ∈ commands, Loadable db t fields E c ∧
        ∀ u, Reach db t c.id u → ∃ env, E env ∧ env c.aliasName = some u) →
      commands.foldlM Run.loadSet rows run = .ok rows' run' →
      Mirroring db t q E (fun j => D j ∨ ∃ c ∈ commands, j = c.id) F (commands.reverse ++ done)
        rows' run' := by
  induction commands with
  | nil =>
    intro D done rows run h _ _ hload
    rw [List.foldlM_nil] at hload
    obtain ⟨rfl, rfl⟩ := step_pure_ok hload
    simpa using h
  | cons c commands ih =>
    intro D done rows run h hnodup hall hload
    rw [List.foldlM_cons] at hload
    obtain ⟨rows₁, run₁, hfirst, hrest⟩ := step_bind_ok hload
    rw [List.map_append, List.map_cons, List.nodup_middle, List.nodup_cons, List.mem_append,
      not_or, ← List.map_append] at hnodup
    obtain ⟨hc, hreach⟩ := hall c (List.mem_cons_self ..)
    have h₁ := h.loadSet hg hselects hapart hc hnodup.1.1 hreach hfirst
    have h₂ := ih h₁ (by
      rw [List.cons_append, List.map_cons, List.nodup_cons, List.map_append, List.mem_append,
        not_or, ← List.map_append]
      exact hnodup) (fun d hd => hall d (List.mem_cons_of_mem _ hd)) hrest
    rw [List.reverse_cons, List.append_assoc, List.singleton_append]
    simpa [or_assoc] using h₂

end

end Run

end GraphLoad
