/-
Loaded and empty told apart. Main statements: when a run has ended, every object of a set from which
another one was loaded along a relationship to many has its collection, whether rows of the same
statement, rows of a statement of their own or none of either mentioned it; and an object has no loaded
property but those of the relationships that the plan follows from its entity, or of a way back to one
object from a set of its entity.
-/
import GraphLoad.Proofs.Run.Footprint
import GraphLoad.Proofs.Run.Trace

namespace GraphLoad

open Sql

namespace Run

variable {plan : Plan} {chain : Chain} {t : CommandTree} {rows : List Row} {run run' : Run}
  {executor : Executor} {c p : Command} {o : Origin}

/-! ## Linking loads the collections of a chain -/

/-- The object that a row has for the parent of a set has its collection once the set was linked. -/
theorem connect_collects (hc : c ∈ chain.commands.filterMap plan.tree.get?) (ho : c.origin = some o)
    (hp : plan.tree.get? o.parent = some p) (hmany : o.relation.isMany = true)
    (h : connect plan chain rows run = .ok ⟨⟩ run') {row : Row} (hrow : row ∈ rows) {k : Nat}
    (hobject : row.object p.aliasName = .ok (some k)) (hk : k < run.store.size) :
    run'.store.related? k o.relation.property ≠ none := by
  unfold connect at h
  obtain ⟨⟨⟩, run₁, hlinks, hinit⟩ := step_bind_ok h
  obtain ⟨pre, post, hsplit⟩ := List.append_of_mem hc
  rw [hsplit] at hlinks
  obtain ⟨r, r', hpre, hlink, hpost⟩ := forM_split_ok hlinks
  have honward : ∀ {commands : List Command} {r r' : Run},
      commands.forM (linkSet plan rows) r = .ok ⟨⟩ r' → r.store.Retains r'.store := by
    intro commands r r' hran
    have hlinked : Onward [] r r' := linkSets_onward.ok hran
    exact hlinked.retains
  -- linking the set loads the collection, and what follows keeps it
  have hlinked : r'.store.related? k o.relation.property ≠ none := by
    rcases linkSet_ok hlink with ⟨hno, -⟩ | ⟨o', p', l, ho', hp', hl, hstore, -⟩
    · exact (hno o p ho hp).elim
    · rw [ho] at ho'
      cases ho'
      rw [hp] at hp'
      cases hp'
      rw [hstore]
      exact Relation.link_collects hl hmany row hrow k hobject ((honward hpre).grows.lt hk)
  have hlast : Onward [] run₁ run' := initSource_onward.ok hinit
  exact ((honward hpost).trans hlast.retains).loaded k _ hlinked

/-- Every object of a source set has its collection once the chain was linked. -/
theorem connect_begins {s : Nat} (hsource : chain.source = some s)
    (hroot : plan.tree.get? chain.root = some c) (ho : c.origin = some o)
    (hmany : o.relation.isMany = true) (h : connect plan chain rows run = .ok ⟨⟩ run') {k : Nat}
    (hmem : k ∈ run.setOf s) (hk : k < run.store.size) :
    run'.store.related? k o.relation.property ≠ none := by
  unfold connect at h
  obtain ⟨⟨⟩, run₁, hlinks, hinit⟩ := step_bind_ok h
  have honward : Onward [] run run₁ := linkSets_onward.ok hlinks
  have hrelation : (plan.tree.get? chain.root).bind Command.relation = some o.relation := by
    rw [hroot, Option.bind_some, Command.relation, ho, Option.map_some]
  rcases initSource_ok hinit with ⟨-, hone⟩ | ⟨s', r, hs', hr, -, rfl⟩
  · rw [hone s o.relation hsource hrelation] at hmany
    cases hmany
  · rw [hsource] at hs'
    cases hs'
    rw [hrelation] at hr
    cases hr
    refine (ObjectStore.retains_initMany o.relation.property (run₁.setOf s) run₁.store).2 k ?_
      (honward.retains.grows.lt hk)
    rw [honward.sets s List.not_mem_nil]
    exact hmem

/-- When a chain has been run, the objects of the set that one of its commands is loaded from have
their collections. -/
theorem runChain_collects (ht : t.Grown) (htree : plan.tree = t)
    (hshape : chain.toChainShape ∈ t.chainsFrom 0) (hstocked : Stocked t run) (hkeyed : Keyed t run)
    (hempty : ∀ i ∈ chain.commands, run.setOf i = []) {i : Nat} (hi : i ∈ chain.commands)
    (hc : t.get? i = some c) (ho : c.origin = some o) (hmany : o.relation.isMany = true)
    (hran : runChain executor plan chain run = .ok ⟨⟩ run') :
    ∀ k ∈ run'.setOf o.parent, run'.store.related? k o.relation.property ≠ none := by
  intro k hk
  obtain ⟨-, p, hp, -⟩ := ht.ordered.sources hc ho
  have hparent := CommandTree.parent_of_mem ht.ordered hshape hi hc ho
  rcases runChain_ok hran with ⟨hnone, rfl⟩ | ⟨query, answered, -, -, hydrated⟩
  · -- a chain that was skipped has an empty source, and filled no set
    rcases hparent with ⟨-, hsource⟩ | ⟨hmem, -⟩
    · obtain ⟨-, ⟨-, heq⟩ | ⟨s, hs, ⟨hnothing, -⟩ | ⟨-, _, _, -, -, heq⟩⟩⟩ := queryFor_ok hnone
      · cases heq
      · rw [hsource] at hs
        cases hs
        rw [hnothing] at hk
        cases hk
      · cases heq
    · rw [hempty _ hmem] at hk
      cases hk
  · rw [hydrate_eq] at hydrated
    obtain ⟨filled, run₁, hfill, hconnect⟩ := step_bind_ok hydrated
    have hsent : Stocked t { run with sent := run.sent ++ [query.build plan.settings.dialect] } :=
      hstocked.grow (.refl _) rfl
    have hsentKeyed : Keyed t { run with sent := run.sent ++ [query.build plan.settings.dialect] } :=
      hkeyed.grow (.refl _) rfl
    have hlisted := fill_lists ht htree hshape hsentKeyed hfill
    have hlinked : Onward [] run₁ run' := connect_onward.ok hconnect
    rw [hlinked.sets _ List.not_mem_nil] at hk
    have hlt : k < run₁.store.size := by
      obtain ⟨a, ha, -⟩ := hlisted.keyed o.parent p hp k hk
      exact ObjectStore.get?_lt ha
    rcases hparent with ⟨rfl, hsource⟩ | ⟨hmem, -⟩
    · exact connect_begins hsource (htree ▸ hc) ho hmany hconnect hk hlt
    · have hown : p ∈ chain.commands.filterMap t.get? := List.mem_filterMap.2 ⟨_, hmem, hp⟩
      rw [← ht.ordered.ids hp] at hk
      obtain ⟨row, hrow, hobject⟩ := hlisted.stand p hown k hk
      exact connect_collects (htree ▸ List.mem_filterMap.2 ⟨i, hi, hc⟩) ho (htree ▸ hp) hmany hconnect
        hrow hobject hlt

end Run

namespace Plan

variable {P : Schema → Prop} {t : CommandTree} {cfg : Settings} {s s' : Schema} {plan : Plan}
  {executor : Executor} {out : Output}

/-- In a run that has ended every object of a set that another one was loaded from along a relationship
to many has a collection under its property. -/
theorem collections_loaded (ht : t.Grown) (hmade : Made P t cfg plan)
    (hout : (plan.execute executor).result = .ok out) {i : Nat} {c : Command} {o : Origin}
    (hc : t.get? i = some c) (ho : c.origin = some o) (hmany : o.relation.isMany = true) :
    ∃ set, out.sets[o.parent]? = some set ∧ ∀ k ∈ set.objects, ∃ a, out.store.get? k = some a ∧
      a.isLoaded o.relation.property = true := by
  obtain ⟨run, hrun, hstore, hsets⟩ := Run.execute_ok hout
  obtain ⟨-, p, hp, -⟩ := ht.ordered.sources hc ho
  obtain ⟨chain, hchain, hi⟩ := hmade.exists_chain ht.ordered (List.getElem?_eq_some_iff.1 hc).1
  have hshape := hmade.shape_mem hchain
  obtain ⟨r, r', hreaches, hran, hown, hbehind, hretains⟩ := hmade.settled ht.ordered hchain hrun
  obtain ⟨-, hstocked, hkeyed⟩ := hreaches.keeps ht hmade
  refine ⟨_, by rw [hsets]; exact hmade.set_of_run ht.ordered hrun hp, fun k hk => ?_⟩
  -- the set of the parent has not changed since the chain of its child was run
  have hset : run.setOf o.parent = r'.setOf o.parent := by
    rcases CommandTree.parent_of_mem ht.ordered hshape hi hc ho with ⟨-, hsource⟩ | ⟨hmem, -⟩
    · obtain ⟨hnot, hsame⟩ := hbehind o.parent hsource
      rw [hsame, (Run.runChain_onward ht.ordered hmade.tree hran).sets o.parent hnot]
    · exact (hown o.parent hmem).2
  have hloaded := hretains.loaded k _ (Run.runChain_collects ht hmade.tree hshape hstocked hkeyed
    (fun j hj => (hown j hj).1) hi hc ho hmany hran k (hset ▸ hk))
  rw [hstore]
  cases ha : run.store.get? k with
  | none =>
    rw [ObjectStore.related?, ha] at hloaded
    exact (hloaded rfl).elim
  | some a =>
    rw [ObjectStore.related?_of_get? ha] at hloaded
    exact ⟨a, rfl, Option.isSome_iff_ne_none.2 hloaded⟩

/-- A property that a plan writes is that of a relationship it follows, or of a way back to one. -/
theorem loaded_of_written (ht : t.Ordered) (htree : plan.tree = t) {entity property : String}
    (h : (entity, property) ∈ plan.collections ∨ (entity, property) ∈ plan.singles) :
    (∃ i c o p, t.get? i = some c ∧ c.origin = some o ∧ t.get? o.parent = some p ∧
        p.entity.name = entity ∧ o.relation.property = property) ∨
      ∃ i c back, t.get? i = some c ∧ plan.reverse? i = some back ∧ c.entity.name = entity ∧
        back.isMany = false ∧ back.property = property := by
  have hcommand : ∀ c ∈ plan.tree.commands, ∃ i, t.get? i = some c ∧ c.id = i := by
    intro c hc
    rw [htree] at hc
    obtain ⟨i, hi⟩ := List.getElem?_of_mem hc
    exact ⟨i, hi, ht.ids hi⟩
  have hforward : ∀ c ∈ plan.tree.commands, ∀ r, c.relation = some r → r.source.name = entity →
      r.property = property → ∃ i c o p, t.get? i = some c ∧ c.origin = some o ∧
        t.get? o.parent = some p ∧ p.entity.name = entity ∧ o.relation.property = property := by
    rintro c hc r hr hentity hproperty
    obtain ⟨i, hi, -⟩ := hcommand c hc
    obtain ⟨o, ho, rfl⟩ := Option.map_eq_some_iff.1 hr
    obtain ⟨-, p, hp, hname⟩ := ht.sources hi ho
    exact ⟨i, c, o, p, hi, ho, hp, hname.trans hentity, hproperty⟩
  rcases h with h | h
  · obtain ⟨c, hc, hwrites⟩ := List.mem_filterMap.1 h
    obtain ⟨r, hr, heq⟩ := Option.map_eq_some_iff.1 hwrites
    obtain ⟨hentity, hproperty⟩ := Prod.mk.inj heq
    exact .inl (hforward c hc r (Option.filter_eq_some_iff.1 hr).1 hentity hproperty)
  · obtain ⟨c, hc, hwrites⟩ := List.mem_flatMap.1 h
    rcases List.mem_append.1 hwrites with hwrites | hwrites
    · obtain ⟨r, hr, heq⟩ := Option.map_eq_some_iff.1 (Option.mem_toList.1 hwrites)
      obtain ⟨hentity, hproperty⟩ := Prod.mk.inj heq
      exact .inl (hforward c hc r (Option.filter_eq_some_iff.1 hr).1 hentity hproperty)
    · obtain ⟨b, hb, heq⟩ := Option.map_eq_some_iff.1 (Option.mem_toList.1 hwrites)
      obtain ⟨hentity, rfl⟩ := Prod.mk.inj heq
      obtain ⟨i, hi, hid⟩ := hcommand c hc
      rw [hid] at hb
      cases hback : plan.reverse? i with
      | none =>
        rw [hback] at hb
        cases hb
      | some back =>
        rw [hback, Relation.backProperty] at hb
        split at hb
        · cases hb
        · rename_i hone
          cases hb
          exact .inr ⟨i, c, back, hi, hback, hentity, Bool.eq_false_iff.2 hone, rfl⟩

/-- An output in which what is loaded is told from what is not. -/
structure Accounted (t : CommandTree) (plan : Plan) (out : Output) : Prop where
  /-- The property of a relationship to many is loaded on every object of the set it was followed from. -/
  collected : ∀ i c o, t.get? i = some c → c.origin = some o → o.relation.isMany = true →
    ∃ set, out.sets[o.parent]? = some set ∧ ∀ k ∈ set.objects, ∃ a, out.store.get? k = some a ∧
      a.isLoaded o.relation.property = true
  /-- No property of an object is loaded but those of relationships followed from a set of its entity and
  of ways back to one object from a set of its entity. -/
  followed : ∀ k a property, out.store.get? k = some a → a.isLoaded property = true →
    (∃ i c o p, t.get? i = some c ∧ c.origin = some o ∧ t.get? o.parent = some p ∧
        p.entity.name = a.entity ∧ o.relation.property = property) ∨
      ∃ i c back, t.get? i = some c ∧ plan.reverse? i = some back ∧ c.entity.name = a.entity ∧
        back.isMany = false ∧ back.property = property

/-- Whatever the executor answers, a run that ends has loaded the property of every relationship to
many that it follows, on every object of the set it was followed from, and has loaded no property of
an object but those of relationships followed from a set of its entity and of ways back to one object
from a set of its entity. -/
theorem loaded_told_from_empty (ht : t.Grown) (hmake : make t cfg s = .ok plan s')
    (hout : (plan.execute executor).result = .ok out) : Accounted t plan out := by
  have hmade := made_of_make hmake
  constructor
  case collected => exact fun i c o hc ho hmany => collections_loaded ht hmade hout hc ho hmany
  case followed =>
    intro k a property ha hloaded
    have hwrote := (execute_wrote ht hmake hout).store
    refine loaded_of_written ht.ordered hmade.tree ?_
    by_cases hcollection : (a.entity, property) ∈ plan.collections
    · exact .inl hcollection
    · -- what is loaded and no collection was written to the object as the last of some writes
      have hpointed := hwrote.pointed k a property ha hcollection
      rw [Record.isLoaded, hpointed, Option.isSome_map] at hloaded
      obtain ⟨target, htarget⟩ := Option.isSome_iff_exists.1 hloaded
      obtain ⟨w, hw, rfl, rfl, -⟩ := mem_of_lastTarget htarget
      obtain ⟨⟨e, hof, hsingle⟩, -⟩ := hwrote.owned w hw
      have hentity : e = a.entity := hof.unique ⟨a, ha, rfl⟩
      exact .inr (hentity ▸ hsingle)

/-- Two authors; a book of the first, said to be by a third author, who has none. -/
def overlooked : Executor := fun sent =>
  .ok (if sent.length = 1 then
      [.ofList [("AUTHOR1:id", .int 1), ("AUTHOR1:name", .str "Ann")],
        .ofList [("AUTHOR1:id", .int 2), ("AUTHOR1:name", .str "Bo")]]
    else if sent.length = 2 then
      [.ofList [("AUTHOR1:id", .int 1), ("BOOK2:id", .int 7), ("AUTHOR3:id", .int 3),
        ("BOOK4:id", .null)]]
    else [])

/-- The second author, whom the statement for the books does not mention, and the third one, whose
books are joined and missing, have empty collections; the book has no loaded property but its
author. -/
theorem loaded_told_from_empty_shelf : shelf.Grown ∧ ∃ plan s' out a b c,
    make shelf {} { catalog := .ofList [author, book] } = .ok plan s' ∧
      (plan.execute overlooked).result = .ok out ∧
      out.sets.map ResultSet.objects = [[0, 1], [2], [3], [], [], []] ∧
      out.store.get? 1 = some a ∧ a.isLoaded "books" = true ∧ a.many "books" = [] ∧
      out.store.get? 3 = some b ∧ b.isLoaded "books" = true ∧ b.many "books" = [] ∧
      out.store.get? 2 = some c ∧ c.relations.keys = ["author"] ∧
      Accounted shelf plan out := by
  have hran : ((ran? shelf {} { catalog := .ofList [author, book] } overlooked).any fun x =>
      decide (x.2.sets.map ResultSet.objects = [[0, 1], [2], [3], [], [], []]) &&
      (x.2.store.get? 1).any (fun a => a.isLoaded "books" = true ∧ a.many "books" = []) &&
      (x.2.store.get? 3).any (fun b => b.isLoaded "books" = true ∧ b.many "books" = []) &&
      (x.2.store.get? 2).any fun c => c.relations.keys = ["author"]) = true := by
    decide +kernel
  obtain ⟨⟨plan, out⟩, hsome, hfacts⟩ := (Option.any_eq_true _ _).1 hran
  simp only [Bool.and_eq_true, decide_eq_true_eq] at hfacts
  obtain ⟨⟨⟨hsets, hsecond⟩, hthird⟩, hbook⟩ := hfacts
  obtain ⟨a, ha, hseconds⟩ := (Option.any_eq_true _ _).1 hsecond
  obtain ⟨b, hb, hthirds⟩ := (Option.any_eq_true _ _).1 hthird
  obtain ⟨c, hc, hbooks⟩ := (Option.any_eq_true _ _).1 hbook
  rw [decide_eq_true_eq] at hseconds hthirds hbooks
  obtain ⟨s', hmake, hout⟩ := ran?_some hsome
  exact ⟨grown_shelf, plan, s', out, a, b, c, hmake, hout, hsets, ha, hseconds.1, hseconds.2, hb,
    hthirds.1, hthirds.2, hc, hbooks, loaded_told_from_empty grown_shelf hmake hout⟩

end Plan

end GraphLoad
