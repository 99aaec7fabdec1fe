/-
Adding a set. Whoever asks a session for one more set gets the sets that were asked for before as if it
were not there: a set that nothing is loaded from and that has no predicates changes neither the root of
the chain of any other set nor, provided that none of its fields has the label of a key field of that set,
which objects that set holds. A label that is selected already is not selected again.
-/
import GraphLoad.Proofs.Run.Leaf
import GraphLoad.Proofs.Run.Splitting

namespace GraphLoad

open Sql

/-! ## What is compared -/

/-- Outputs that have a set in the same place, with the same alias and entity, and with the same objects
as told by their entities and keys. -/
def Output.SameSet (a b : Output) (i : Nat) : Prop :=
  ∃ x y, a.sets[i]? = some x ∧ b.sets[i]? = some y ∧ x.aliasName = y.aliasName ∧
    x.entity = y.entity ∧ ∀ z, (∃ k ∈ x.objects, a.store.identity? k = some z) ↔
      ∃ k ∈ y.objects, b.store.identity? k = some z

/-- Plans that put a command into chains of the same root. -/
def Plan.SameRoot (plan plan' : Plan) (i : Nat) : Prop :=
  ∃ chain chain', plan.chainOf? i = some chain ∧ plan'.chainOf? i = some chain' ∧
    chain'.root = chain.root

/-- A tree without windows along relationships that are resolved in a schema. -/
structure CommandTree.Drawn (t : CommandTree) (s : Schema) : Prop where
  grown : t.Grown
  relations : ∀ {i c o}, t.get? i = some c → c.origin = some o →
    ∃ entity name, s.resolved.get? (entity, name) = some o.relation
  unpaged : ∀ {i c}, t.get? i = some c → c.isPaginated = false

namespace CommandTree.Drawn

variable {t t₁ : CommandTree} {s s' : Schema}

theorem start (session : Nat) (root : Entity) (s : Schema) : (CommandTree.start session root).Drawn s := by
  have hroot : ∀ {i c}, (CommandTree.start session root).get? i = some c →
      c.origin = none ∧ c.modifiers = {} := by
    intro i c hc
    obtain rfl : i = 0 := Nat.lt_one_iff.1 (CommandTree.get?_lt hc)
    cases hc
    exact ⟨rfl, rfl⟩
  refine ⟨.start session root, fun hc ho => ?_, fun hc => ?_⟩
  · rw [(hroot hc).1] at ho
    cases ho
  · rw [Command.isPaginated, (hroot hc).2]
    rfl

theorem resolves (h : t.Drawn s) (hs : s.Resolves s') : t.Drawn s' :=
  ⟨h.grown, fun hc ho => by
    obtain ⟨entity, name, hget⟩ := h.relations hc ho
    exact ⟨entity, name, hs.kept _ _ hget⟩, h.unpaged⟩

/-- Such a tree grows along a relationship that is resolved, if the new set has no window. -/
theorem add (h : t.Drawn s) {entity name : String} {r : Relation}
    (hr : s.resolved.get? (entity, name) = some r) {parent leaf : Nat}
    (hadd : t.add parent r = .ok (t₁, leaf)) {f : Modifiers → Modifiers}
    (hpage : (f {}).page.isEmpty = true) : (t₁.modify leaf f).Drawn s := by
  obtain ⟨hextends, hleaf⟩ := CommandTree.extends_add h.grown.ordered hadd f
  have hcommand : ∀ {i c}, (t₁.modify leaf f).get? i = some c →
      (∃ d, t.get? i = some d ∧ c.origin = d.origin ∧ c.modifiers = d.modifiers) ∨
        (c.origin = some ⟨parent, r⟩ ∧ c.modifiers = f {}) := by
    intro i c hc
    have hlt := CommandTree.get?_lt hc
    rw [hextends.size] at hlt
    rcases Nat.lt_succ_iff_lt_or_eq.1 hlt with hlt | rfl
    · obtain ⟨d, hd⟩ := CommandTree.get?_of_lt hlt
      rw [hextends.get? hd] at hc
      cases hc
      exact .inl ⟨d, hd, rfl, rfl⟩
    · rw [hleaf] at hc
      cases hc
      exact .inr ⟨rfl, rfl⟩
  refine ⟨.modify leaf f (.add h.grown hadd), fun hc ho => ?_, fun hc => ?_⟩
  · rcases hcommand hc with ⟨d, hd, horigin, -⟩ | ⟨horigin, -⟩ <;> rw [horigin] at ho
    · exact h.relations hd ho
    · cases ho
      exact ⟨entity, name, hr⟩
  · rcases hcommand hc with ⟨d, hd, -, hmodifiers⟩ | ⟨-, hmodifiers⟩ <;>
      rw [Command.isPaginated, hmodifiers]
    · exact h.unpaged hd
    · rw [hpage]
      rfl

end CommandTree.Drawn

namespace Plan

/-- The plan of a tree whose relationships are resolved joins along mapped ones. -/
theorem distinct_of_make {t : CommandTree} {s s₁ s₂ : Schema} {cfg : Settings} {plan : Plan}
    (hs : s.Reachable) (ht : t.Drawn s) (hmake : make t cfg s₁ = .ok plan s₂)
    (haliases : ∀ chain ∈ plan.chains, chain.query.aliases.Nodup) : plan.Distinct t cfg := by
  have hmade := made_of_make hmake
  refine ⟨ht.grown, fun hc ho => ?_, hmade, haliases⟩
  obtain ⟨entity, name, hget⟩ := ht.relations hc ho
  obtain ⟨pairs, hbuilt⟩ := Relation.build_ok (hs.coherent entity name _ hget)
  refine ⟨s.catalog, pairs, ?_⟩
  rw [hbuilt.named]
  exact hbuilt.mapping

/-! ## One more set -/

/-- Adding a set never changes the others. With one more set, from which nothing is loaded and which has
no predicates, every set that was there stays in a chain of the same root; and if no field of the new set
has the label of a key field of another set of its statement, two runs over one database that come to
their ends hold the same in every set that was there. -/
theorem leaf_changes_nothing {t t₁ : CommandTree} {s s₁ s₂ s₁' s₂' : Schema} {cfg : Settings}
    {db : Database} {entity name : String} {r : Relation} {parent leaf : Nat}
    {f : Modifiers → Modifiers} {plan plan' : Plan} {executor executor' : Executor}
    {out out' : Output} (hs : s.Reachable) (ht : t.Drawn s)
    (hr : s.resolved.get? (entity, name) = some r) (hadd : t.add parent r = .ok (t₁, leaf))
    (hplain : (f {}).predicates = []) (hpage : (f {}).page.isEmpty = true) (hjoin : cfg.join = .left)
    (hdb : db.Regular) (hmake : make t cfg s₁ = .ok plan s₂)
    (hmake' : make (t₁.modify leaf f) cfg s₁' = .ok plan' s₂')
    (haliases : ∀ chain ∈ plan.chains, chain.query.aliases.Nodup)
    (haliases' : ∀ chain ∈ plan'.chains, chain.query.aliases.Nodup)
    (hserves : plan.Serves db executor) (hserves' : plan'.Serves db executor')
    (hout : (plan.execute executor).result = .ok out)
    (hout' : (plan'.execute executor').result = .ok out') :
    (∀ i < t.size, plan.SameRoot plan' i) ∧
      (plan'.KeysApart leaf → ∀ i < t.size, out.SameSet out' i) := by
  have ht' := ht.add hr hadd hpage
  have hd := distinct_of_make hs ht hmake haliases
  have hd' := distinct_of_make hs ht' hmake' haliases'
  have hordered := ht.grown.ordered
  have hordered' := ht'.grown.ordered
  obtain ⟨hextends, hleaf⟩ := CommandTree.extends_add hordered hadd f
  obtain ⟨-, -, -, -, rfl⟩ := CommandTree.add_ok hadd
  constructor
  · intro i hi
    obtain ⟨chain, hchain, hmem⟩ := hd.made.exists_chain hordered hi
    obtain ⟨chain', hchain', hgains⟩ := exists_gains hextends hd hd' hchain
    exact ⟨chain, chain', hd.made.chainOf? hordered hchain hmem,
      hd'.made.chainOf? hordered' hchain' (hgains.mem_of_mem hmem), hgains.root⟩
  · intro hkeys i hi
    have hnone : ∀ c, (t₁.modify t.size f).get? t.size = some c → c.modifiers.predicates = [] := by
      intro c hc
      rw [hleaf] at hc
      cases hc
      exact hplain
    obtain ⟨c, hc⟩ := CommandTree.get?_of_lt hi
    obtain ⟨run, hrun, hstore, hsets⟩ := Run.execute_ok hout
    obtain ⟨run', hrun', hstore', hsets'⟩ := Run.execute_ok hout'
    have hset := hd.made.set_of_run hordered hrun hc
    have hset' := hd'.made.set_of_run hordered' hrun' (hextends.get? hc)
    rw [← hsets] at hset
    rw [← hsets'] at hset'
    refine ⟨_, _, hset, hset', rfl, rfl, fun z => ?_⟩
    rw [hstore, hstore']
    exact (contains_alike hd.made hd'.made ht.grown ht'.grown hdb
      (fun hc => ⟨_, hextends.get? hc, rfl, rfl⟩)
      (fun chain => exists_alike hextends hd hd' hjoin hnone hkeys) hserves hserves' hrun hrun' i hc
      z).symm

/-! ## Books between authors, and a key under the label of another field -/

/-- The tree with one more set, loaded from another one along a relationship of that name and with a
policy, and the schema after resolving the relationship. -/
def sprout? (p : CommandTree × Schema) (step : Nat × String × ChainPolicy) :
    Option (CommandTree × Schema) :=
  match p.1.get? step.1 with
  | none => none
  | some source =>
    match Schema.relation source.entity.name step.2.1 p.2 with
    | .error .. => none
    | .ok r s =>
      match p.1.add step.1 r with
      | .error _ => none
      | .ok (t, leaf) => some (t.modify leaf fun m => { m with policy := step.2.2 }, s)

theorem sprout?_some {t t' : CommandTree} {s s' : Schema} {step : Nat × String × ChainPolicy}
    (hs : s.Reachable) (ht : t.Drawn s) (h : sprout? (t, s) step = some (t', s')) :
    s'.Reachable ∧ t.Drawn s' ∧ ∃ entity r t₁ leaf,
      s'.resolved.get? (entity, step.2.1) = some r ∧ t.add step.1 r = .ok (t₁, leaf) ∧
        t' = t₁.modify leaf fun m => { m with policy := step.2.2 } := by
  unfold sprout? at h
  split at h
  · cases h
  · split at h
    · cases h
    · rename_i r s₁ hrelation
      split at h
      · cases h
      · rename_i t₁ leaf hadd
        cases h
        obtain ⟨hres, hget⟩ := Schema.relation_ok hrelation
        exact ⟨.relation hs hrelation, ht.resolves hres, _, r, t₁, leaf, hget, hadd, rfl⟩

/-- The tree that grows from an entity set by set, with the schema after resolving the relationships. -/
def grow? (schema : Schema) (root : Entity) (steps : List (Nat × String × ChainPolicy)) :
    Option (CommandTree × Schema) :=
  steps.foldlM sprout? (CommandTree.start 1 root, schema)

theorem drawn_foldlM {steps : List (Nat × String × ChainPolicy)} : ∀ {t t' : CommandTree}
    {s s' : Schema}, s.Reachable → t.Drawn s → steps.foldlM sprout? (t, s) = some (t', s') →
      s'.Reachable ∧ t'.Drawn s' := by
  induction steps with
  | nil =>
    intro t t' s s' hs ht h
    cases h
    exact ⟨hs, ht⟩
  | cons step steps ih =>
    intro t t' s s' hs ht h
    rw [List.foldlM_cons] at h
    obtain ⟨⟨t₁, s₁⟩, hstep, hrest⟩ := Option.bind_eq_some_iff.1 h
    obtain ⟨hs₁, ht₁, entity, r, t₂, leaf, hr, hadd, rfl⟩ := sprout?_some hs ht hstep
    exact ih hs₁ (ht₁.add hr hadd rfl) hrest

theorem grow?_some {schema s : Schema} {root : Entity} {steps : List (Nat × String × ChainPolicy)}
    {t : CommandTree} (hs : schema.Reachable) (h : grow? schema root steps = some (t, s)) :
    s.Reachable ∧ t.Drawn s :=
  drawn_foldlM hs (.start 1 root schema) h

/-- A plan under the usual settings and what it loads over a database, if it is made and runs to its
end. -/
def answered? (db : Database) (p : CommandTree × Schema) : Option (Plan × Output) :=
  match make p.1 {} p.2 with
  | .ok plan _ => (plan.execute (plan.server db)).result.toOption.map fun out => (plan, out)
  | .error .. => none

theorem answered?_some {t : CommandTree} {s : Schema} {db : Database} {plan : Plan} {out : Output}
    (h : answered? db (t, s) = some (plan, out)) :
    ∃ s', make t {} s = .ok plan s' ∧ (plan.execute (plan.server db)).result = .ok out := by
  unfold answered? at h
  split at h
  · rename_i plan' s' hmake
    obtain ⟨out', hresult, heq⟩ := Option.map_eq_some_iff.1 h
    cases heq
    exact ⟨s', hmake, except_toOption_some hresult⟩
  · cases h

/-- A tree that grows set by set and then by one more, with what it loads before and after. -/
theorem sprouted {schema : Schema} {root : Entity} {steps : List (Nat × String × ChainPolicy)}
    {step : Nat × String × ChainPolicy} {db : Database} {facts facts' : Plan × Output → Bool}
    (trees : CommandTree → CommandTree → Bool) (hschema : schema.Reachable)
    (h : ((grow? schema root steps).any fun p => (sprout? p step).any fun p' =>
      trees p.1 p'.1 && ((answered? db (p.1, p'.2)).any facts && (answered? db p').any facts')) =
        true) :
    ∃ t t₁ s s₁ s₂ entity r leaf plan plan' out out', s.Reachable ∧ t.Drawn s ∧
      s.resolved.get? (entity, step.2.1) = some r ∧ t.add step.1 r = .ok (t₁, leaf) ∧
      trees t (t₁.modify leaf fun m => { m with policy := step.2.2 }) = true ∧
      (make t {} s = .ok plan s₁ ∧ (plan.execute (plan.server db)).result = .ok out ∧
        facts (plan, out) = true) ∧
      make (t₁.modify leaf fun m => { m with policy := step.2.2 }) {} s = .ok plan' s₂ ∧
        (plan'.execute (plan'.server db)).result = .ok out' ∧ facts' (plan', out') = true := by
  obtain ⟨⟨t, s₀⟩, hgrow, h⟩ := (Option.any_eq_true _ _).1 h
  obtain ⟨⟨t', s⟩, hsprout, h⟩ := (Option.any_eq_true _ _).1 h
  rw [Bool.and_eq_true, Bool.and_eq_true] at h
  obtain ⟨htrees, hbefore, hafter⟩ := h
  obtain ⟨⟨plan, out⟩, hanswered, hfacts⟩ := (Option.any_eq_true _ _).1 hbefore
  obtain ⟨⟨plan', out'⟩, hanswered', hfacts'⟩ := (Option.any_eq_true _ _).1 hafter
  obtain ⟨hs₀, ht₀⟩ := grow?_some hschema hgrow
  obtain ⟨hs, ht, entity, r, t₁, leaf, hr, hadd, rfl⟩ := sprout?_some hs₀ ht₀ hsprout
  obtain ⟨s₁, hmake, hout⟩ := answered?_some hanswered
  obtain ⟨s₂, hmake', hout'⟩ := answered?_some hanswered'
  exact ⟨t, t₁, s, s₁, s₂, entity, r, leaf, plan, plan', out, out', hs, ht, hr, hadd, htrees,
    ⟨hmake, hout, hfacts⟩, hmake', hout', hfacts'⟩

/-- Whether a plan has chains of these commands, and knows each table of them under its own alias. -/
def arranges (chains : List (List Nat)) (plan : Plan) : Bool :=
  decide (plan.chains.map (fun chain => chain.commands) = chains ∧
    ∀ chain ∈ plan.chains, chain.query.aliases.Nodup)

/-- Authors with their books twice over stay the same when the authors of the first books come into their
statement, between both. -/
theorem leaf_changes_nothing_shelves : ∃ (t t₁ : CommandTree) (s s₁ s₂ : Schema) (r : Relation)
    (leaf : Nat) (plan plan' : Plan) (out out' : Output),
    t.size = 3 ∧ t.add 1 r = .ok (t₁, leaf) ∧ make t {} s = .ok plan s₁ ∧
      make (t₁.modify leaf fun m => { m with policy := .auto }) {} s = .ok plan' s₂ ∧
      plan.chains.map (fun chain => chain.commands) = [[0, 1, 2]] ∧
      plan'.chains.map (fun chain => chain.commands) = [[0, 1, 3, 2]] ∧
      (plan.execute (plan.server catalogue)).result = .ok out ∧
      (plan'.execute (plan'.server catalogue)).result = .ok out' ∧ plan'.KeysApart leaf ∧
      (∀ i < t.size, plan.SameRoot plan' i) ∧ ∀ i < t.size, out.SameSet out' i := by
  have hall : ((grow? shelves author [(0, "BOOKS", .slave), (0, "BOOKS", .slave)]).any fun p =>
      (sprout? p (1, "AUTHOR1", .auto)).any fun p' => decide (p.1.size = 3) &&
        ((answered? catalogue (p.1, p'.2)).any (fun x => arranges [[0, 1, 2]] x.1) &&
        (answered? catalogue p').any fun x =>
          arranges [[0, 1, 3, 2]] x.1 && decide (x.1.KeysApart 3))) = true := by
    decide +kernel
  obtain ⟨t, t₁, s, s₁, s₂, entity, r, leaf, plan, plan', out, out', hs, ht, hr, hadd, hsize,
    ⟨hmake, hout, harranges⟩, hmake', hout', hfacts⟩ :=
      sprouted (fun t _ => decide (t.size = 3)) (.ofLists [author, book] []) hall
  rw [Bool.and_eq_true] at hfacts
  obtain ⟨hchains, haliases⟩ := of_decide_eq_true harranges
  obtain ⟨hchains', haliases'⟩ := of_decide_eq_true hfacts.1
  have hsize : t.size = 3 := of_decide_eq_true hsize
  have hleaf : leaf = 3 := by
    obtain ⟨-, -, -, -, rfl⟩ := CommandTree.add_ok hadd
    exact hsize
  have hkeys : plan'.KeysApart leaf := hleaf ▸ of_decide_eq_true hfacts.2
  obtain ⟨hroots, hsets⟩ := leaf_changes_nothing hs ht hr hadd rfl rfl rfl
    (Database.regular_ofRows (by decide +kernel)) hmake hmake' haliases haliases'
    (plan.serves_server catalogue) (plan'.serves_server catalogue) hout hout'
  exact ⟨t, t₁, s, s₁, s₂, r, leaf, plan, plan', out, out', hsize, hadd, hmake, hmake', hchains, hchains',
    hout, hout', hkeys, hroots, hsets hkeys⟩

/-- Depots, with a field that shares its label with the keys of the parcels in them. -/
def depot : Entity where
  name := "A"
  table := "depot"
  columns := .ofList [("id", "id"), ("Q3:id", "mark")]
  primaryKey := ["id"]
  foreignKeys := .empty
  primaryKey_ne_nil := Entity.single_ne_nil "id"
  primaryKey_declared := by decide
  foreignKeys_declared := by decide

/-- Vans, each of a depot. -/
def van : Entity where
  name := "B"
  table := "van"
  columns := .ofList [("id", "id"), ("a_id", "depot_id")]
  primaryKey := ["id"]
  foreignKeys := .empty
  primaryKey_ne_nil := Entity.single_ne_nil "id"
  primaryKey_declared := by decide
  foreignKeys_declared := by decide

/-- Parcels, each in a depot. -/
def parcel : Entity where
  name := "A4:Q"
  table := "parcel"
  columns := .ofList [("id", "id"), ("a_id", "depot_id")]
  primaryKey := ["id"]
  foreignKeys := .empty
  primaryKey_ne_nil := Entity.single_ne_nil "id"
  primaryKey_declared := by decide
  foreignKeys_declared := by decide

/-- One depot with one van and one parcel. -/
def yard : Database := .ofRows
  [("depot", [[("id", .int 1), ("mark", .int 5)]]), ("van", [[("id", .int 2), ("depot_id", .int 1)]]),
    ("parcel", [[("id", .int 7), ("depot_id", .int 1)]])]

/-- Whether a set holds an object under an integer. -/
def finds (i : Nat) (n : Int64) (out : Output) : Bool :=
  (out.sets[i]?).any fun x => x.objects.any fun k =>
    (out.store.get? k).any fun r => r.key.parts.map Value.asInt = [some n]

theorem finds_of_same {a b : Output} {i : Nat} (h : a.SameSet b i) {n : Int64}
    (hn : finds i n a = true) : finds i n b = true := by
  obtain ⟨x, y, hx, hy, -, -, hsame⟩ := h
  unfold finds at hn ⊢
  rw [hx] at hn
  rw [hy]
  obtain ⟨k, hk, hkey⟩ := List.any_eq_true.1 hn
  obtain ⟨r, hr, hkey⟩ := (Option.any_eq_true _ _).1 hkey
  obtain ⟨l, hl, hlz⟩ := (hsame (r.entity, r.key)).1
    ⟨k, hk, ObjectStore.identity?_eq_some.2 ⟨r, hr, rfl⟩⟩
  obtain ⟨r', hr', heq⟩ := ObjectStore.identity?_eq_some.1 hlz
  refine List.any_eq_true.2 ⟨l, hl, (Option.any_eq_true _ _).2 ⟨r', hr', ?_⟩⟩
  rw [(Prod.mk.inj heq).2]
  exact hkey

/-- Where a field of the new set has the label of a key field of another set and is selected before it,
that set changes: parcels are then known by the marks of the depots of vans. -/
theorem shared_label_changes : ¬ ∀ (t t₁ : CommandTree) (s s₁ s₂ s₁' s₂' : Schema) (cfg : Settings)
    (db : Database) (entity name : String) (r : Relation) (parent leaf : Nat)
    (f : Modifiers → Modifiers) (plan plan' : Plan) (executor executor' : Executor)
    (out out' : Output), s.Reachable → t.Drawn s → s.resolved.get? (entity, name) = some r →
    t.add parent r = .ok (t₁, leaf) → (f {}).predicates = [] → (f {}).page.isEmpty = true →
    cfg.join = .left → cfg.conflicts = .warn → db.Regular →
    (∀ {i c}, (t₁.modify leaf f).get? i = some c → c.entity.Keyed db) →
    make t cfg s₁ = .ok plan s₂ → make (t₁.modify leaf f) cfg s₁' = .ok plan' s₂' →
    (∀ chain ∈ plan.chains, chain.query.aliases.Nodup) →
    (∀ chain ∈ plan'.chains, chain.query.aliases.Nodup) →
    plan.Serves db executor → plan'.Serves db executor' →
    (plan.execute executor).result = .ok out → (plan'.execute executor').result = .ok out' →
    ∀ i < t.size, plan.SameRoot plan' i ∧ out.SameSet out' i := by
  intro h
  have hall : ((grow? (.ofLists [depot, van, parcel] []) depot
      [(0, "BS", .slave), (0, "A4:QS", .slave)]).any fun p =>
      (sprout? p (1, "A1", .auto)).any fun p' => (decide (p.1.size = 3) && keyedIn p'.1 yard) &&
        ((answered? yard (p.1, p'.2)).any (fun x => arranges [[0, 1, 2]] x.1 && finds 2 7 x.2) &&
        (answered? yard p').any fun x => arranges [[0, 1, 3, 2]] x.1 && !finds 2 7 x.2)) = true := by
    decide +kernel
  obtain ⟨t, t₁, s, s₁, s₂, entity, r, leaf, plan, plan', out, out', hs, ht, hr, hadd, htrees,
    ⟨hmake, hout, hfacts⟩, hmake', hout', hfacts'⟩ :=
      sprouted (fun t t' => decide (t.size = 3) && keyedIn t' yard) (.ofLists [depot, van, parcel] []) hall
  rw [Bool.and_eq_true] at htrees hfacts hfacts'
  obtain ⟨-, haliases⟩ := of_decide_eq_true hfacts.1
  obtain ⟨-, haliases'⟩ := of_decide_eq_true hfacts'.1
  have hsize : t.size = 3 := of_decide_eq_true htrees.1
  have hsame := h t t₁ s s s₁ s s₂ {} yard entity _ r _ leaf _ plan plan' _ _ out out' hs ht hr hadd
    rfl rfl rfl rfl (Database.regular_ofRows (by decide +kernel))
    (fun hc => keyed_of_keyedIn htrees.2 hc) hmake hmake' haliases haliases' (plan.serves_server yard)
    (plan'.serves_server yard) hout hout' 2 (by rw [hsize]; decide)
  have hfinds := finds_of_same hsame.2 hfacts.2
  rw [hfinds] at hfacts'
  cases hfacts'.2

end Plan

end GraphLoad
