/-
Identity over a whole load. Main statement: whatever the rows say, in the objects that a plan has
loaded an entity and a key that is the same and hashes alike tell every object from all others, each
set lists objects of its own entity, each once, no key is null and every property refers to loaded
objects. Keys that are the same without hashing alike stand for two objects: a zero in a document
has two signs, which print apart.
-/
import GraphLoad.Proofs.Run.Hydration
import GraphLoad.Proofs.Plan.Totality

namespace GraphLoad

/-- What answers with values that columns can hold. -/
def Executor.Regular (executor : Executor) : Prop :=
  ∀ sent rows, executor sent = .ok rows → ∀ row ∈ rows, row.Regular

namespace Run

variable {plan : Plan} {chain : Chain} {t : CommandTree} {rows rows' : List Row} {run run' : Run}

/-- A run whose objects are told apart and whose sets list objects of their entities, each once. -/
structure WF (t : CommandTree) (run : Run) : Prop where
  store : run.store.WF
  nodup : ∀ id, (run.setOf id).Nodup
  members : ∀ {id c}, t.get? id = some c → ∀ i ∈ run.setOf id,
    ∃ a, run.store.get? i = some a ∧ a.entity = c.entity.name

theorem wf_before (t : CommandTree) : (before t).WF t := by
  have hset : ∀ id, (before t).setOf id = [] := by
    intro id
    unfold setOf before
    rw [List.getElem?_replicate]
    split <;> rfl
  refine ⟨ObjectStore.wf_empty, fun id => ?_, fun hid i hi => ?_⟩
  · rw [hset]; exact .nil
  · rw [hset] at hi; cases hi

/-- A run stays well formed while its store grows. -/
theorem WF.grow (h : run.WF t) (hwf : run'.store.WF) (hgrows : run.store.Extends run'.store)
    (hsets : run'.sets = run.sets) : run'.WF t := by
  have hset : ∀ id, run'.setOf id = run.setOf id := fun id => by rw [setOf, hsets, ← setOf]
  refine ⟨hwf, fun id => by rw [hset]; exact h.nodup id, fun hid i hi => ?_⟩
  rw [hset] at hi
  obtain ⟨a, ha, he⟩ := h.members hid i hi
  obtain ⟨b, hb, he', -⟩ := hgrows i a ha
  exact ⟨b, hb, he'.trans he⟩

theorem setOf_set (run : Run) (store : ObjectStore) (id : Nat) (ids : List Nat) (i : Nat) :
    ({ run with store, sets := run.sets.set id ids } : Run).setOf i =
      if id = i ∧ i < run.sets.length then ids else run.setOf i := by
  unfold setOf
  rw [List.getElem?_set]
  by_cases hi : id = i
  · subst hi
    by_cases hlt : id < run.sets.length
    · simp [hlt]
    · simp [hlt]
  · simp [hi]

/-! ## Hydration keeps a run well formed -/

/-- Rows under hydration: the aliases of `done` have got their objects. -/
structure Hydrating (t : CommandTree) (done : List String) (rows : List Row) (run : Run) :
    Prop where
  wf : run.WF t
  regular : ∀ row ∈ rows, row.Regular
  valid : ∀ a ∈ done, ∀ row ∈ rows, row.Valid run.store a

/-- Loading an alias gives its rows their objects and takes none from them. -/
theorem Hydrating.load {done : List String} {e : Entity} {aliasName : String} {ids : List Nat}
    (h : Hydrating t done rows run)
    (hloads : e.Loads aliasName rows run.store rows' run'.store ids) (hwf : run'.WF t) :
    Hydrating t (aliasName :: done) rows' run' := by
  refine ⟨hwf, fun row' hrow' => ?_, fun a ha row' hrow' id hid => ?_⟩
  · obtain ⟨row, hrow, key, o, -, rfl, -⟩ := forall₂_mem_right hloads.placed row' hrow'
    exact h.regular row hrow
  · obtain ⟨row, hrow, key, o, -, rfl, ho⟩ := forall₂_mem_right hloads.placed row' hrow'
    by_cases haa : a = aliasName
    · subst haa
      rw [Row.object_setObject] at hid
      cases hid
      rcases ho with ⟨-, ho⟩ | ⟨-, id', ho, hstands⟩
      · cases ho
      · cases ho
        exact hstands.lt
    · rw [Row.object_setObject_of_ne row haa] at hid
      rcases List.mem_cons.1 ha with rfl | ha
      · exact (haa rfl).elim
      · exact hloads.grows.lt (h.valid a ha row hrow id hid)

theorem Hydrating.loadSet {done : List String} {command : Command}
    (h : Hydrating t done rows run) (hid : ∀ {c}, t.get? command.id = some c → c = command)
    (hload : Run.loadSet rows command run = .ok rows' run') :
    Hydrating t (command.aliasName :: done) rows' run' := by
  obtain ⟨ids, hloads, hnodup, hrun⟩ := loadSet_ok h.wf.store h.regular hload
  refine h.load hloads ⟨hloads.wf, fun i => ?_, fun {i c} hc j hj => ?_⟩
  · rw [hrun, setOf_set]
    split
    · exact hnodup
    · exact h.wf.nodup i
  · rw [hrun, setOf_set] at hj
    split at hj
    · rename_i heq
      rw [← heq.1] at hc
      rw [hid hc]
      obtain ⟨row', hrow', hobject⟩ := (hloads.members j).1 hj
      obtain ⟨row, -, key, o, -, rfl, ho⟩ := forall₂_mem_right hloads.placed row' hrow'
      rw [Row.object_setObject] at hobject
      cases hobject
      rcases ho with ⟨-, ho⟩ | ⟨-, j', ho, a, ha, hfor⟩
      · cases ho
      · cases ho
        exact ⟨a, ha, (Record.isFor_iff.1 hfor).1⟩
    · obtain ⟨a, ha, he⟩ := h.wf.members hc j hj
      obtain ⟨b, hb, he', -⟩ := hloads.grows j a ha
      exact ⟨b, hb, he'.trans he⟩

theorem Hydrating.loadSets {commands : List Command} :
    ∀ {done : List String} {rows : List Row} {run : Run}, Hydrating t done rows run →
      (∀ command ∈ commands, ∀ {c}, t.get? command.id = some c → c = command) →
      commands.foldlM Run.loadSet rows run = .ok rows' run' →
      Hydrating t (commands.reverse.map Command.aliasName ++ done) rows' run' := by
  induction commands with
  | nil =>
    intro done rows run h _ hload
    rw [List.foldlM_nil] at hload
    obtain ⟨rfl, rfl⟩ := step_pure_ok hload
    exact h
  | cons command commands ih =>
    intro done rows run h hid hload
    rw [List.foldlM_cons] at hload
    obtain ⟨rows₁, run₁, hfirst, hrest⟩ := step_bind_ok hload
    have h₁ := h.loadSet (hid command (List.mem_cons_self ..)) hfirst
    have h₂ := ih h₁ (fun c hc => hid c (List.mem_cons_of_mem _ hc)) hrest
    rw [List.reverse_cons, List.map_append, List.append_assoc]
    exact h₂

theorem linkSet_wf {done : List String} {command : Command} (h : Hydrating t done rows run)
    (htree : plan.tree = t) (hcommand : command.aliasName ∈ done)
    (hparent : ∀ origin parent, command.origin = some origin →
      t.get? origin.parent = some parent → parent.aliasName ∈ done)
    (hlink : linkSet plan rows command run = .ok ⟨⟩ run') : Hydrating t done rows run' := by
  rcases linkSet_ok hlink with ⟨-, rfl⟩ | ⟨origin, parent, l, ho, hp, hl, hstore, hsets, -⟩
  · exact h
  · rw [htree] at hp
    obtain ⟨hwf, hgrows⟩ := Relation.link_wf h.wf.store (h.valid _ (hparent origin parent ho hp))
      (h.valid _ hcommand) hl
    rw [← hstore] at hwf hgrows
    exact ⟨h.wf.grow hwf hgrows hsets, h.regular,
      fun a ha row hrow => (h.valid a ha row hrow).extends hgrows⟩

theorem initMany_foldl_wf (property : String) (ids : List Nat) {s : ObjectStore} (hwf : s.WF) :
    (ids.foldl (·.initMany · property) s).WF ∧
      s.Extends (ids.foldl (·.initMany · property) s) := by
  induction ids generalizing s with
  | nil => exact ⟨hwf, .refl s⟩
  | cons id ids ih =>
    obtain ⟨hwf₁, hgrows₁⟩ := ObjectStore.initMany_ok hwf id property
    obtain ⟨hwf₂, hgrows₂⟩ := ih hwf₁
    exact ⟨hwf₂, hgrows₁.trans hgrows₂⟩

theorem initSource_wf (h : run.WF t) (hinit : initSource plan chain run = .ok ⟨⟩ run') :
    run'.WF t := by
  rcases initSource_ok hinit with ⟨rfl, -⟩ | ⟨source, relation, -, -, -, rfl⟩
  · exact h
  · obtain ⟨hwf, hgrows⟩ := initMany_foldl_wf relation.property (run.setOf source) h.store
    exact h.grow hwf hgrows rfl

/-- The command that a command of a chain is loaded from is in the chain or is its source. -/
theorem parent_loaded (ht : t.Ordered) {c : ChainShape} (hc : c ∈ t.chainsFrom 0)
    {command parent : Command} {origin : Origin} (hcommand : command ∈ c.commands.filterMap t.get?)
    (ho : command.origin = some origin) (hp : t.get? origin.parent = some parent) :
    c.source.bind t.get? = some parent ∨ parent ∈ c.commands.filterMap t.get? := by
  obtain ⟨id, hid, hget⟩ := List.mem_filterMap.1 hcommand
  rcases CommandTree.parent_of_mem ht hc hid hget ho with ⟨-, hsource⟩ | ⟨hmem, -⟩
  · left
    rw [hsource]
    exact hp
  · exact .inr (List.mem_filterMap.2 ⟨origin.parent, hmem, hp⟩)

theorem hydrate_wf (ht : t.Ordered) (htree : plan.tree = t)
    (hchain : chain.toChainShape ∈ t.chainsFrom 0) (h : run.WF t)
    (hrows : ∀ row ∈ rows, row.Regular) (hydrated : hydrate plan chain rows run = .ok ⟨⟩ run') :
    run'.WF t := by
  obtain ⟨rows₁, run₁, rows₂, run₂, run₃, hsource, hsets, hlinks, hinit⟩ := hydrate_ok hydrated
  rw [htree] at hsets hlinks
  have hstart : Hydrating t [] rows run := ⟨h, hrows, fun a ha => nomatch ha⟩
  obtain ⟨done, hdone, hsourceDone⟩ : ∃ done, Hydrating t done rows₁ run₁ ∧
      ∀ p, chain.source.bind t.get? = some p → p.aliasName ∈ done := by
    rcases loadSource_ok h.store hrows hsource with ⟨hnone, rfl, rfl⟩ | ⟨p, ids, hp, hloads, hrun⟩
    · rw [htree] at hnone
      exact ⟨[], hstart, fun p hp => by rw [hnone] at hp; cases hp⟩
    · rw [htree] at hp
      refine ⟨_, hstart.load hloads (h.grow hloads.wf hloads.grows (by rw [hrun])), fun q hq => ?_⟩
      rw [hp] at hq
      cases hq
      exact List.mem_cons_self ..
  have hid : ∀ command ∈ chain.commands.filterMap t.get?, ∀ {c}, t.get? command.id = some c →
      c = command := by
    intro command hcommand c hc
    obtain ⟨id, -, hget⟩ := List.mem_filterMap.1 hcommand
    rw [ht.ids hget, hget] at hc
    exact (Option.some.inj hc).symm
  have hloaded := hdone.loadSets hid hsets
  have hin : ∀ command ∈ chain.commands.filterMap t.get?, command.aliasName ∈
      (chain.commands.filterMap t.get?).reverse.map Command.aliasName ++ done := fun c hc =>
    List.mem_append_left _ (List.mem_map_of_mem (List.mem_reverse.2 hc))
  refine initSource_wf (forM_keeps (fun command hcommand r r' hr hlink => ?_) hloaded hlinks).wf
    hinit
  refine linkSet_wf hr htree (hin command hcommand) (fun origin parent ho hp => ?_) hlink
  rcases parent_loaded ht hchain hcommand ho hp with hs | hs
  · exact List.mem_append_right _ (hsourceDone parent hs)
  · exact hin parent hs

theorem runChain_wf {executor : Executor} (hexec : executor.Regular) (ht : t.Ordered)
    (htree : plan.tree = t) (hchain : chain.toChainShape ∈ t.chainsFrom 0) (h : run.WF t)
    (hran : runChain executor plan chain run = .ok ⟨⟩ run') : run'.WF t := by
  rcases runChain_ok hran with ⟨-, rfl⟩ | ⟨query, rows, -, hrows, hydrated⟩
  · exact h
  · have hsent : ({ run with sent := run.sent ++ [query.build plan.settings.dialect] } : Run).WF t :=
      h.grow h.store (.refl _) rfl
    exact hydrate_wf ht htree hchain hsent (hexec _ rows hrows) hydrated

end Run

/-! ## What a load has brought together -/

/-- An output whose objects are what their entities and keys say they are. -/
structure Output.Identified (out : Output) : Prop where
  objects : ∀ i j a b, out.store.get? i = some a → out.store.get? j = some b →
    (i = j ↔ a.entity = b.entity ∧ a.key.sameAs b.key = true ∧ a.key.feed = b.key.feed)
  zeroFree : ∀ i j a b, out.store.get? i = some a → out.store.get? j = some b → a.key.ZeroFree →
    (i = j ↔ a.entity = b.entity ∧ a.key.sameAs b.key = true)
  sets : ∀ set ∈ out.sets, set.objects.Nodup ∧
    ∀ i ∈ set.objects, ∃ a, out.store.get? i = some a ∧ a.entity = set.entity
  entries : ∀ set ∈ out.sets, ∀ set' ∈ out.sets, ∀ i ∈ set.objects, ∀ j ∈ set'.objects,
    ∃ a b, out.store.get? i = some a ∧ out.store.get? j = some b ∧
      (i = j ↔ set.entity = set'.entity ∧ a.key.sameAs b.key = true ∧ a.key.feed = b.key.feed)
  keyed : ∀ i a, out.store.get? i = some a → a.key.isNull = false
  closed : ∀ i a property r, out.store.get? i = some a → a.related? property = some r →
    ∀ target ∈ r.targets, target < out.store.size

theorem Run.WF.identified {t : CommandTree} {run : Run} (h : run.WF t) {out : Output}
    (hstore : out.store = run.store) (hsets : out.sets = resultSets t run.sets) :
    out.Identified := by
  have hobjects : ∀ i j a b, out.store.get? i = some a → out.store.get? j = some b →
      (i = j ↔ a.entity = b.entity ∧ a.key.sameAs b.key = true ∧ a.key.feed = b.key.feed) := by
    intro i j a b ha hb
    rw [hstore] at ha hb
    rw [h.store.eq_iff ha hb, Key.meets_iff]
  have hin : ∀ set ∈ out.sets, set.objects.Nodup ∧
      ∀ i ∈ set.objects, ∃ a, out.store.get? i = some a ∧ a.entity = set.entity := by
    intro set hset
    rw [hsets, resultSets, List.mem_map] at hset
    obtain ⟨⟨c, ids⟩, hmem, rfl⟩ := hset
    obtain ⟨k, hk⟩ := List.getElem?_of_mem hmem
    obtain ⟨hc, hids⟩ := List.getElem?_zip_eq_some.1 hk
    have hids : run.setOf k = ids := by rw [setOf, hids]; rfl
    rw [hstore, ← hids]
    exact ⟨h.nodup k, h.members hc⟩
  refine ⟨hobjects, ?zeroFree, hin, ?entries, ?keyed, ?closed⟩
  case zeroFree =>
    intro i j a b ha hb hz
    rw [hobjects i j a b ha hb]
    refine ⟨fun ⟨he, hs, _⟩ => ⟨he, hs⟩, fun ⟨he, hs⟩ => ⟨he, hs, ?_⟩⟩
    rw [Key.eq_of_sameAs hs hz]
  case entries =>
    intro set hset set' hset' i hi j hj
    obtain ⟨a, ha, he⟩ := (hin set hset).2 i hi
    obtain ⟨b, hb, he'⟩ := (hin set' hset').2 j hj
    refine ⟨a, b, ha, hb, ?_⟩
    rw [← he, ← he']
    exact hobjects i j a b ha hb
  case keyed =>
    intro i a ha
    rw [hstore] at ha
    exact (h.store.keyed ha).2
  case closed =>
    intro i a property r ha hr
    rw [hstore] at ha ⊢
    exact h.store.linked ha hr

namespace Plan

/-- Whatever the rows of its statements are, a plan that runs to its end has one object for every
entity and key that is the same and hashes alike, lists objects of its own entity in every set, each
once, has made no object of a null key, and has related objects to objects only. -/
theorem execute_identified {t : CommandTree} {cfg : Settings} {s s' : Schema} {plan : Plan}
    {executor : Executor} {out : Output} (ht : t.Grown) (hmake : make t cfg s = .ok plan s')
    (hexec : executor.Regular) (hout : (plan.execute executor).result = .ok out) :
    out.Identified := by
  obtain ⟨-, hmade⟩ := make_ok (P := fun _ => True) (fun _ _ _ _ _ _ => trivial) trivial hmake
  obtain ⟨run, hrun, hstore, hsets⟩ := Run.execute_ok hout
  rw [hmade.tree] at hrun hsets
  refine Run.WF.identified ?_ hstore hsets
  refine forM_keeps (P := Run.WF t) (fun chain hchain r r' hr hran => ?_) (Run.wf_before t) hrun
  refine Run.runChain_wf hexec ht.ordered hmade.tree ?_ hr hran
  rw [← hmade.shapes]
  exact List.mem_map_of_mem hchain

/-! ## Two books of one author, and two signs of one zero -/

/-- What a tree has loaded when its statements are answered by an executor, if it runs to its end. -/
def loaded? (t : CommandTree) (s : Schema) (executor : Executor) : Option Output :=
  match make t {} s with
  | .ok plan _ => (plan.execute executor).result.toOption
  | .error .. => none

theorem loaded?_some {t : CommandTree} {s : Schema} {executor : Executor} {out : Output}
    (h : loaded? t s executor = some out) :
    ∃ plan s', make t {} s = .ok plan s' ∧ (plan.execute executor).result = .ok out := by
  unfold loaded? at h
  split at h
  · rename_i plan s' hmake
    exact ⟨plan, s', hmake, except_toOption_some h⟩
  · cases h

/-- Authors, and their books in a statement of their own. -/
def works : CommandTree := (CommandTree.start 1 author).push book (some ⟨0, books⟩)

theorem grown_works : works.Grown := grown_push (.start 1 author) 0 books rfl

/-- One author, who wrote two books. -/
def library : Executor := fun sent =>
  .ok (if sent.length = 1 then
      [.ofList [("AUTHOR1:id", .int 1), ("AUTHOR1:name", .str "Ann")]]
    else
      [.ofList [("AUTHOR1:id", .int 1), ("BOOK2:id", .int 7), ("BOOK2:author_id", .int 1)],
       .ofList [("AUTHOR1:id", .int 1), ("BOOK2:id", .int 8), ("BOOK2:author_id", .int 1)]])

theorem regular_library : library.Regular := by
  intro sent rows h
  cases h
  split <;> decide +kernel

/-- The author is the same object in both statements. -/
theorem execute_identified_library : ∃ plan s' out,
    make works {} { catalog := .ofList [author, book] } = .ok plan s' ∧
      (plan.execute library).result = .ok out ∧
      out.sets.map ResultSet.objects = [[0], [1, 2]] ∧ out.Identified := by
  have hloaded : ((loaded? works { catalog := .ofList [author, book] } library).any
      fun out => out.sets.map ResultSet.objects = [[0], [1, 2]]) = true := by decide +kernel
  obtain ⟨out, hout, hsets⟩ := (Option.any_eq_true _ _).1 hloaded
  obtain ⟨plan, s', hmake, hresult⟩ := loaded?_some hout
  exact ⟨plan, s', out, hmake, hresult, of_decide_eq_true hsets,
    execute_identified grown_works hmake regular_library hresult⟩

/-- Authors under the two zeros of documents, which are equal. -/
def zeros : Executor := fun _ =>
  .ok [.ofList [("AUTHOR1:id", .json (.float ⟨0⟩))],
    .ofList [("AUTHOR1:id", .json (.float ⟨0x8000000000000000⟩))]]

/-- Keys that are the same do not make one object if they hash apart. -/
theorem equal_keys_apart : ¬ ∀ (t : CommandTree) (cfg : Settings) (s s' : Schema) (plan : Plan)
    (executor : Executor) (out : Output), t.Grown → make t cfg s = .ok plan s' →
    executor.Regular → (plan.execute executor).result = .ok out →
    ∀ i j a b, out.store.get? i = some a → out.store.get? j = some b → a.entity = b.entity →
      a.key.sameAs b.key = true → i = j := by
  intro h
  have hzeros : zeros.Regular := by
    intro sent rows h
    cases h
    decide +kernel
  have hloaded : ((loaded? (.start 1 author) { catalog := .ofList [author] } zeros).any fun out =>
      (out.store.get? 0).any fun a => (out.store.get? 1).any fun b =>
        a.entity == b.entity && a.key.sameAs b.key) = true := by decide +kernel
  obtain ⟨out, hout, hobjects⟩ := (Option.any_eq_true _ _).1 hloaded
  obtain ⟨plan, s', hmake, hresult⟩ := loaded?_some hout
  obtain ⟨a, ha, hobjects⟩ := (Option.any_eq_true _ _).1 hobjects
  obtain ⟨b, hb, hsame⟩ := (Option.any_eq_true _ _).1 hobjects
  rw [Bool.and_eq_true, beq_iff_eq] at hsame
  have := h _ _ _ _ plan zeros out (.start 1 author) hmake hzeros hresult 0 1 a b ha hb hsame.1 hsame.2
  cases this

end Plan

end GraphLoad
