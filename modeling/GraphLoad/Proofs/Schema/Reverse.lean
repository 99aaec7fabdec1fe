/-
Ways back. Main statement: a way back starts where the way there ends, whatever the schema; where its
name is derived and left to the convention it leads back to the source and is of the reversed kind;
and it states the converse of the way there whenever its field pairs are those of the way there
exchanged, as conventional pairs are. A way back that was declared is taken at its word.
-/
import GraphLoad.Proofs.Relation.Convention
import GraphLoad.Proofs.Plan.Making

namespace GraphLoad

/-- The same edge seen from its other end. -/
structure Relation.Converse (there back : Relation) : Prop where
  source : back.source = there.target
  target : back.target = there.source
  pivot : back.pivot = there.pivot
  states : ∀ e, back.mapping.States e ↔ there.mapping.States e.swap

/-- Relationships whose field pairs are exchanged are converse to each other. -/
theorem Relation.Built.converse {catalog : Catalog} {entity name entity' name' : String}
    {definition definition' : Option RelationDefinition} {pairs pairs' : FieldPairs}
    {there back : Relation} (h : Built catalog entity name definition pairs there)
    (h' : Built catalog entity' name' definition' pairs' back)
    (hsource : back.source = there.target) (htarget : back.target = there.source)
    (hpivot : pairs'.pivot? = pairs.pivot?)
    (hpairs : ∀ e, e ∈ pairs'.equalities there.target.name there.source.name ↔
      e.swap ∈ pairs.equalities there.source.name there.target.name)
    (hone : Unambiguous (pairs.equalities there.source.name there.target.name)) :
    Converse there back := by
  have hone' : Unambiguous (pairs'.equalities back.source.name back.target.name) := by
    rw [hsource, htarget]
    intro e he e' he' h1 h2
    exact (hone _ ((hpairs e).1 he) _ ((hpairs e').1 he') h2 h1).symm
  refine ⟨hsource, htarget, ?_, fun e => ?_⟩
  · rw [(joinMapping_ok h.mapping).1, (joinMapping_ok h'.mapping).1, hpivot]
  · rw [states_joinMapping h.mapping hone, states_joinMapping h'.mapping hone', hsource, htarget]
    exact hpairs e

namespace Schema

/-! ## Schemas as they come about -/

/-- The schemas that come about: entities and definitions, after which relationships are resolved
and further definitions registered in any order. -/
inductive Reachable : Schema → Prop
  | ofLists (entities : List Entity) (definitions : List (String × RelationDefinition)) :
      Reachable (.ofLists entities definitions)
  | relation {s s' : Schema} {entity name : String} {r : Relation} :
      Reachable s → Schema.relation entity name s = .ok r s' → Reachable s'
  | register {s s' : Schema} {entity : String} {definition : RelationDefinition} {u : Unit} :
      Reachable s → Schema.register entity definition s = .ok u s' → Reachable s'

/-- A schema whose resolved relationships are those that would be made now. -/
def Coherent (s : Schema) : Prop :=
  ∀ entity name r, s.resolved.get? (entity, name) = some r → s.build entity name = .ok r

/-- What resolving relationships leaves of a schema. -/
structure Resolves (s s' : Schema) : Prop where
  catalog : s'.catalog = s.catalog
  definitions : s'.definitions = s.definitions
  kept : ∀ k r, s.resolved.get? k = some r → s'.resolved.get? k = some r
  coherent : s.Coherent → s'.Coherent

theorem Resolves.refl (s : Schema) : Resolves s s := ⟨rfl, rfl, fun _ _ h => h, id⟩

theorem Resolves.trans {s s' s'' : Schema} (h : Resolves s s') (h' : Resolves s' s'') :
    Resolves s s'' :=
  ⟨h'.catalog.trans h.catalog, h'.definitions.trans h.definitions,
    fun k r hk => h'.kept k r (h.kept k r hk), fun hc => h'.coherent (h.coherent hc)⟩

theorem relation_ok {s s' : Schema} {entity name : String} {r : Relation}
    (h : Schema.relation entity name s = .ok r s') :
    Resolves s s' ∧ s'.resolved.get? (entity, name) = some r := by
  unfold Schema.relation at h
  obtain ⟨s₁, s₂, hget, h⟩ := step_bind_ok h
  obtain ⟨rfl, rfl⟩ := step_get_ok hget
  cases hr : s.resolved.get? (entity, name) <;> rw [hr] at h
  case some r' =>
    obtain ⟨rfl, rfl⟩ := step_pure_ok h
    exact ⟨.refl s, hr⟩
  case none =>
    obtain ⟨r', s₁, hlift, h⟩ := step_bind_ok h
    obtain ⟨hbuild, rfl⟩ := step_lift_ok hlift
    obtain ⟨⟨⟩, s₁, hset, h⟩ := step_bind_ok h
    obtain ⟨rfl, rfl⟩ := step_pure_ok h
    rw [← step_set_ok hset]
    refine ⟨⟨rfl, rfl, fun k q hk => ?_, fun hc entity' name' q hq => ?_⟩, ?_⟩
    · rw [OrderedMap.get?_insert]
      split
      · rename_i heq; rw [heq, hr] at hk; cases hk
      · exact hk
    · rw [OrderedMap.get?_insert] at hq
      split at hq
      · rename_i heq
        cases heq
        cases hq
        exact hbuild
      · exact hc entity' name' q hq
    · rw [OrderedMap.get?_insert, if_pos rfl]

theorem relation_error {s s' : Schema} {entity name : String} {e : LoadError}
    (h : Schema.relation entity name s = .error e s') : s' = s := by
  unfold Schema.relation at h
  rw [step_bind_of_ok (show (get : Resolving Schema) s = .ok s s from rfl)] at h
  cases hr : s.resolved.get? (entity, name) <;> rw [hr] at h
  case some r' => cases h
  case none =>
    cases hb : s.build entity name <;> rw [hb] at h <;> cases h
    rfl

theorem register_ok {s s' : Schema} {entity : String} {definition : RelationDefinition} {u : Unit}
    (h : Schema.register entity definition s = .ok u s') :
    s.resolved.get? (entity, definition.name) = none ∧ s' = s.define entity definition := by
  unfold Schema.register at h
  obtain ⟨s₁, s₂, hget, h⟩ := step_bind_ok h
  obtain ⟨rfl, rfl⟩ := step_get_ok hget
  obtain ⟨e, s₁, hlift, h⟩ := step_bind_ok h
  obtain ⟨-, rfl⟩ := step_lift_ok hlift
  cases hc : s.resolved.contains (entity, definition.name) <;> rw [hc] at h
  case true =>
    obtain ⟨_, _, hthrow, -⟩ := step_bind_ok h
    cases hthrow
  case false =>
    rw [OrderedMap.contains, Option.isSome_eq_false_iff, Option.isNone_iff_eq_none] at hc
    exact ⟨hc, (step_set_ok h).symm⟩

/-- A definition is only registered while its relationship is not resolved. -/
theorem Coherent.register {s s' : Schema} {entity : String} {definition : RelationDefinition} {u : Unit}
    (hs : s.Coherent) (h : Schema.register entity definition s = .ok u s') : s'.Coherent := by
  obtain ⟨hnew, rfl⟩ := register_ok h
  intro entity name r hr
  rw [← hs entity name r hr]
  unfold build define
  rw [OrderedMap.get?_insert_of_ne]
  intro heq
  cases heq
  exact nomatch hnew.symm.trans hr

theorem Reachable.coherent {s : Schema} (h : s.Reachable) : s.Coherent := by
  induction h with
  | ofLists entities definitions =>
    have hresolved : ∀ (ds : List (String × RelationDefinition)) (s : Schema),
        s.resolved = .empty → (ds.foldl (fun s d => s.define d.1 d.2) s).resolved = .empty := by
      intro ds
      induction ds with
      | nil => exact fun _ h => h
      | cons d ds ih => exact fun s hs => ih _ hs
    intro entity name r hr
    rw [Schema.ofLists, hresolved definitions _ rfl] at hr
    cases hr
  | relation _ h ih => exact (relation_ok h).1.coherent ih
  | register _ h ih => exact ih.register h

/-! ## What answers a relationship -/

/-- The field pairs that a relationship of a schema goes by. -/
def pairsOf (s : Schema) (r : Relation) : Except LoadError FieldPairs :=
  match (s.definitions.get? (r.source.name, r.name)).bind (·.mapping) with
  | some pairs => .ok pairs
  | none => Relation.conventionalMapping s.catalog r.source r.target r.kind r.name

/-- A relationship back whose target is the source of the one there, and whose field pairs are
those of the one there exchanged, each field with one partner. -/
def Agree (s : Schema) (there back : Relation) : Prop :=
  back.target = there.source ∧ ∃ pairs pairs', s.pairsOf there = .ok pairs ∧
    s.pairsOf back = .ok pairs' ∧ pairs'.pivot? = pairs.pivot? ∧
    (∀ e, e ∈ pairs'.equalities there.target.name there.source.name ↔
      e.swap ∈ pairs.equalities there.source.name there.target.name) ∧
    Unambiguous (pairs.equalities there.source.name there.target.name)

/-- What a way back that is found by its name is to the way there. -/
structure Answers (s : Schema) (there back : Relation) : Prop where
  source : back.source = there.target
  derived : there.reverseDeclared = false →
    (∀ d, s.definitions.get? (there.target.name, there.reverseName) = some d →
      d.target = none ∧ d.kind = none) →
    back.target = there.source ∧ back.kind = there.kind.reverse
  conventional : back.target = there.source → there.kind.Faces back.kind →
    (∀ d, s.definitions.get? (there.source.name, there.name) = some d → d.mapping = none) →
    (∀ d, s.definitions.get? (there.target.name, there.reverseName) = some d → d.mapping = none) →
    (there.kind = .manyToMany → Relation.PivotAgreed s.catalog there.source there.target) →
    (∀ e ∈ s.catalog.entities, e.RefersOnce) → there.Converse back
  agreeing : s.Agree there back → there.Converse back

theorem pairsOf_built {s : Schema} {entity name : String} {pairs : FieldPairs} {r : Relation}
    (h : Relation.Built s.catalog entity name (s.definitions.get? (entity, name)) pairs r) :
    s.pairsOf r = .ok pairs := by
  unfold pairsOf
  rw [Catalog.name_of_find? h.source, h.named]
  split
  · rename_i p hp; rw [h.declared p hp]
  · rename_i hnone; exact h.conventional hnone

theorem mem_of_find? {c : Catalog} {name : String} {e : Entity} (h : c.find? name = some e) :
    e ∈ c.entities :=
  List.mem_of_find?_eq_some h

theorem answers_of_build {s : Schema} {entity name : String} {there back : Relation}
    (h : s.build entity name = .ok there)
    (h' : s.build there.target.name there.reverseName = .ok back) : s.Answers there back := by
  obtain ⟨pairs, hb⟩ := Relation.build_ok h
  obtain ⟨pairs', hb'⟩ := Relation.build_ok h'
  have hname : there.source.name = entity := Catalog.name_of_find? hb.source
  have hsource : back.source = there.target := by
    have hfind := hb.target
    rw [← Catalog.name_of_find? hb.target, hb'.source] at hfind
    exact Option.some.inj hfind
  refine ⟨hsource, fun hderived hd => ?_, fun htarget hkinds hthere hback hpivot hone => ?_, ?_⟩
  · have hreverse : there.reverseName = Relation.conventionalReverse there.source there.kind := by
      have hnone := hb.reverseDeclared
      rw [hderived, eq_comm, Option.isSome_eq_false_iff, Option.isNone_iff_eq_none] at hnone
      rw [hb.reverseName, hnone]
      rfl
    -- a definition that leaves target and kind open leaves them to the name
    have htarget := hb'.target
    have hkind := hb'.kind
    rw [Option.bind_eq_none_iff.2 fun d hdef => (hd d hdef).1, Option.getD_none, hreverse,
      Relation.baseName_conventionalReverse, hname, hb.source] at htarget
    rw [Option.bind_eq_none_iff.2 fun d hdef => (hd d hdef).2, Option.getD_none, hreverse,
      Relation.ofName_conventionalReverse] at hkind
    exact ⟨(Option.some.inj htarget).symm, hkind⟩
  · rw [hname, hb.named] at hthere
    have hpairs := hb.conventional (Option.bind_eq_none_iff.2 hthere)
    have hpairs' := hb'.conventional (Option.bind_eq_none_iff.2 hback)
    rw [hsource, htarget] at hpairs'
    have hconverse := Relation.conventionalMapping_converse hpairs hpairs' hkinds hpivot
    refine hb.converse hb' hsource htarget ?_ (fun e => ?_) ?_
    · rw [hconverse, FieldPairs.pivot?_converse]
    · rw [hconverse]; exact FieldPairs.mem_converse pairs _ _ e
    · exact Relation.unambiguous_conventional hone (mem_of_find? hb.source)
        (mem_of_find? hb.target) hpairs
  · rintro ⟨htarget, p, p', hp, hp', hpivot, hpairs, hone⟩
    rw [pairsOf_built hb] at hp
    rw [pairsOf_built hb'] at hp'
    cases hp
    cases hp'
    exact hb.converse hb' hsource htarget hpivot hpairs hone

theorem build_eq {s s' : Schema} (h : Resolves s s') (entity name : String) :
    s'.build entity name = s.build entity name := by
  unfold build
  rw [h.catalog, h.definitions]

/-- In every schema that comes about, a relationship that has been resolved is answered by the way
back that its name leads to, and a plan only points back along such a way. -/
theorem reverse_answers {s : Schema} {entity name : String} {there : Relation} (hs : s.Reachable)
    (hthere : s.resolved.get? (entity, name) = some there) :
    (∀ back s', reverse there s = .ok back s' → s.Answers there back) ∧
      ∀ t cfg plan s' id command origin back, Plan.make t cfg s = .ok plan s' →
        t.get? id = some command → command.origin = some origin → origin.relation = there →
        plan.reverse? id = some back → s.Answers there back := by
  -- whatever else has been resolved by then, the way back is the one that would be made now
  have hanswers : ∀ s₁ s₂ back, Resolves s s₁ → reverse there s₁ = .ok back s₂ →
      s.Answers there back := by
    intro s₁ s₂ back h₁ hback
    obtain ⟨hres, hget⟩ := relation_ok hback
    have h₂ := h₁.trans hres
    have hbuild := h₂.coherent hs.coherent _ _ _ hget
    rw [build_eq h₂] at hbuild
    exact answers_of_build (hs.coherent _ _ _ hthere) hbuild
  refine ⟨fun back s' hback => hanswers s s' back (.refl s) hback, ?_⟩
  rintro t cfg plan s' id command origin back hmake hcommand ho rfl hreverse
  -- resolving the commands of a plan only adds to what has been resolved
  have hkeeps : ∀ c s₁ x s₂, Resolves s s₁ → Plan.resolveCommand c s₁ = .ok x s₂ →
      Resolves s s₂ := by
    rintro c s₁ ⟨fields, back⟩ s₂ h₁ hc
    have hc := (Plan.resolveCommand_ok hc).2
    cases hco : c.origin with
    | none =>
      rw [hco] at hc
      rw [hc.2]
      exact h₁
    | some o =>
      rw [hco] at hc
      rcases Plan.resolveReverse_ok hc with ⟨b, -, hb⟩ | ⟨-, e, he⟩
      · exact h₁.trans (relation_ok hb).1
      · rw [relation_error he]
        exact h₁
  obtain ⟨-, hmade⟩ := Plan.make_ok hkeeps (.refl s) hmake
  have hget : plan.reverses[id]? = some (some back) := by
    unfold Plan.reverse? at hreverse
    exact Option.join_eq_some_iff.1 hreverse
  obtain ⟨s₁, s₂, h₁, hresolved⟩ := forall₂_getElem? hmade.reverses hcommand hget origin ho
  rcases Plan.resolveReverse_ok hresolved with ⟨b, hb, hback⟩ | ⟨hnone, -⟩
  · cases hb
    exact hanswers s₁ s₂ back h₁ hback
  · cases hnone

/-! ## Books and their editors -/

/-- Authors. -/
def author : Entity where
  name := "AUTHOR"
  table := "author"
  columns := .ofList [("id", "id")]
  primaryKey := ["id"]
  foreignKeys := .empty
  primaryKey_ne_nil := Entity.single_ne_nil "id"
  primaryKey_declared := by decide
  foreignKeys_declared := by decide

/-- Books, each by an author and with an editor. -/
def book : Entity where
  name := "BOOK"
  table := "book"
  columns := .ofList [("id", "id"), ("author_id", "author_id"), ("editor_id", "editor_id")]
  primaryKey := ["id"]
  foreignKeys := .empty
  primaryKey_ne_nil := Entity.single_ne_nil "id"
  primaryKey_declared := by decide
  foreignKeys_declared := by decide

/-- The books that an author has edited, which claim to be the books by an author seen from the
other end. -/
def edited : RelationDefinition where
  name := "EDITED"
  target := some "BOOK"
  kind := some .oneToMany
  reverse := some "AUTHOR1"
  mapping := some (.direct [("id", "editor_id")])

/-- Authors and books by convention, and the books edited. -/
def press : Schema := .ofLists [author, book] [("AUTHOR", edited)]

/-- A relationship of the press with its way back, if both resolve. -/
def resolvedPair? (entity name : String) : Option (Relation × Relation) :=
  match Schema.relation entity name press with
  | .ok there s =>
    match reverse there s with
    | .ok back _ => some (there, back)
    | .error .. => none
  | .error .. => none

theorem resolvedPair?_some {entity name : String} {there back : Relation}
    (h : resolvedPair? entity name = some (there, back)) :
    ∃ s s', s.Reachable ∧ s.catalog = press.catalog ∧ s.definitions = press.definitions ∧
      s.resolved.get? (entity, name) = some there ∧ reverse there s = .ok back s' := by
  unfold resolvedPair? at h
  split at h
  · rename_i r s hr
    split at h
    · rename_i b s' hb
      cases h
      obtain ⟨hres, hget⟩ := relation_ok hr
      exact ⟨s, s', .relation (.ofLists _ _) hr, hres.catalog, hres.definitions, hget, hb⟩
    · cases h
  · cases h

/-- The books by an author and the author of a book are converse to each other. -/
theorem reverse_answers_press : ∃ s there back s', s.Reachable ∧
    s.resolved.get? ("AUTHOR", "BOOKS") = some there ∧ reverse there s = .ok back s' ∧
    back.name = "AUTHOR1" ∧ s.Answers there back ∧ there.Converse back := by
  have hpair : (resolvedPair? "AUTHOR" "BOOKS").any (fun p => p.2.name = "AUTHOR1" ∧
      p.1.reverseDeclared = false ∧ p.1.kind = .oneToMany ∧ p.1.source.name = "AUTHOR" ∧
      p.1.name = "BOOKS" ∧ p.1.target.name = "BOOK" ∧ p.1.reverseName = "AUTHOR1") = true := by
    decide +kernel
  obtain ⟨⟨there, back⟩, hsome, hfacts⟩ := (Option.any_eq_true _ _).1 hpair
  obtain ⟨hname, hderived, hkind, hsource, hthere, htarget, hreverse⟩ := of_decide_eq_true hfacts
  obtain ⟨s, s', hs, hcatalog, hdefinitions, hget, hback⟩ := resolvedPair?_some hsome
  have hanswers := (reverse_answers hs hget).1 back s' hback
  refine ⟨s, there, back, s', hs, hget, hback, hname, hanswers, ?_⟩
  have hnone : s.definitions.get? (there.target.name, there.reverseName) = none := by
    rw [hdefinitions, htarget, hreverse]
    decide +kernel
  have hnone' : s.definitions.get? (there.source.name, there.name) = none := by
    rw [hdefinitions, hsource, hthere]
    decide +kernel
  have hback := hanswers.derived hderived (fun d hd => by rw [hnone] at hd; cases hd)
  refine hanswers.conventional hback.1 ?_ (fun d hd => by rw [hnone'] at hd; cases hd)
    (fun d hd => by rw [hnone] at hd; cases hd) (fun h => by rw [hkind] at h; cases h) ?_
  · rw [hback.2]; exact there.kind.faces_reverse
  · rw [hcatalog]
    unfold Entity.RefersOnce
    decide +kernel

/-- A way back that was declared is not compared with the way there: the books edited by an author
lead back to the author of a book. -/
theorem declared_reverse_differs : ¬ ∀ (s s' : Schema) (entity name : String)
    (there back : Relation), s.Reachable → s.resolved.get? (entity, name) = some there →
    reverse there s = .ok back s' → there.Converse back := by
  intro h
  have hpair : (resolvedPair? "AUTHOR" "EDITED").any (fun p =>
      p.2.mapping.partner? "AUTHOR" "BOOK" "author_id" = some "id" ∧
      p.1.mapping.partner? "BOOK" "AUTHOR" "id" = some "editor_id") = true := by decide +kernel
  obtain ⟨⟨there, back⟩, hsome, hfacts⟩ := (Option.any_eq_true _ _).1 hpair
  obtain ⟨hstates, hstates'⟩ := of_decide_eq_true hfacts
  obtain ⟨s, s', hs, -, -, hget, hback⟩ := resolvedPair?_some hsome
  have hconverse := h s s' _ _ there back hs hget hback
  have hswapped := (hconverse.states (("BOOK", "author_id"), ("AUTHOR", "id"))).1 hstates
  have hboth : some "author_id" = some "editor_id" := hswapped.symm.trans hstates'
  exact absurd hboth (by decide)

end Schema

end GraphLoad
