/-
The conditions that a relationship's joins state. A mapping is bound pair by pair, and each pair is
checked before it is bound; so whatever has been bound joins without fail, one table for each of its
groups. Between entities that are three different ones, or two without a pivot, those joins state what
the field pairs ask for, as far as no two pairs start from one field.
-/
import GraphLoad.Proofs.Relation.Convention
import GraphLoad.Proofs.Relation.Joining
import GraphLoad.Proofs.Sql.Spans

namespace GraphLoad

open Sql

/-! ## Columns -/

namespace Entity

variable {e : Entity} {aliasName : String}

/-- The column of a field under an alias, as `fieldExpr` finds it for a field of the entity. -/
def columnOf (e : Entity) (aliasName field : String) : Expr :=
  .column aliasName ((e.columns.get? field).getD field)

theorem fieldExpr_eq {field : String} (h : e.hasField field = true) (aliasName : String) :
    e.fieldExpr aliasName field = .ok (e.columnOf aliasName field) := by
  obtain ⟨name, hname⟩ := Option.isSome_iff_exists.1 h
  simp only [fieldExpr, columnOf, hname, Option.getD_some]

theorem equalities_eq : ∀ {bindings : List (String × Expr)},
    (∀ b ∈ bindings, e.hasField b.1 = true) →
      e.equalities aliasName bindings =
        .ok (bindings.map fun b => (e.columnOf aliasName b.1, b.2))
  | [], _ => rfl
  | (field, x) :: rest, h => by
    have hfirst : e.hasField field = true := h _ (List.mem_cons_self ..)
    have hrest := equalities_eq fun b hb => h b (List.mem_cons_of_mem _ hb)
    rw [equalities, fieldExpr_eq hfirst, hrest]
    rfl

end Entity

/-! ## Bound mappings -/

theorem OrderedMap.entries_insert_empty {κ ν : Type} [DecidableEq κ] (k : κ) (v : ν) :
    (OrderedMap.empty.insert k v).entries = [(k, v)] := rfl

namespace JoinMapping

/-- A mapping that states nothing but what `P` holds of, and has no empty group. -/
structure Binds (P : Equality → Prop) (m : JoinMapping) : Prop where
  states : ∀ e, m.States e → P e
  filled : ∀ group ∈ m.groups.entries, group.2.entries ≠ [] ∧
    ∀ met ∈ group.2.entries, met.2.entries ≠ []

variable {P : Equality → Prop} {m : JoinMapping}

theorem binds_empty : ({} : JoinMapping).Binds P :=
  ⟨fun _ h => (nomatch h), fun _ h => (nomatch h)⟩

theorem Binds.bind (h : m.Binds P) {e : Equality} (he : P e) :
    (m.bind e.2.1 e.1.1 e.1.2 e.2.2).Binds P := by
  constructor
  case states =>
    intro b hb
    rw [states_bind] at hb
    split at hb
    · rename_i hkey
      rwa [show b = e from Prod.ext hkey.1.symm (Prod.ext hkey.2.symm hb.symm)]
    · exact h.states b hb
  case filled =>
    intro group hgroup
    rcases OrderedMap.mem_entries_insert hgroup with rfl | hold
    · refine ⟨OrderedMap.entries_insert_ne_nil _ _ _, fun met hmet => ?_⟩
      rcases OrderedMap.mem_entries_insert hmet with rfl | hmet
      · exact OrderedMap.entries_insert_ne_nil _ _ _
      · -- the other entities of the group were met before
        cases hget : m.groups.get? e.2.1 with
        | none =>
          rw [hget] at hmet
          cases hmet
        | some old =>
          rw [hget] at hmet
          exact (h.filled _ (OrderedMap.get?_eq_some_iff.1 hget)).2 met hmet
    · exact h.filled group hold

/-- A pair of fields in a group of a mapping is an equality that it states. -/
theorem states_of_mem {group : String × OrderedMap String (OrderedMap String String)}
    (hgroup : group ∈ m.groups.entries) {met : String × OrderedMap String String}
    (hmet : met ∈ group.2.entries) {p : String × String} (hp : p ∈ met.2.entries) :
    m.States ((met.1, p.1), (group.1, p.2)) := by
  simp only [States, partner?, OrderedMap.get?_eq_some_iff.2 hgroup, Option.bind_some,
    OrderedMap.get?_eq_some_iff.2 hmet, OrderedMap.get?_eq_some_iff.2 hp]

end JoinMapping

namespace Relation

variable {r : Relation} {sourceAlias targetAlias : String} {kind : JoinKind}

/-- Whether an equality is one of fields of entities that the relationship connects. -/
def Knows (r : Relation) (e : Equality) : Prop :=
  (∃ a, r.entity e.1.1 = .ok a ∧ a.hasField e.1.2 = true) ∧
    ∃ b, r.entity e.2.1 = .ok b ∧ b.hasField e.2.2 = true

theorem requireField_ok {e : Entity} {field source name : String} {u : Unit}
    (h : requireField e field source name = .ok u) : e.hasField field = true := by
  unfold requireField at h
  split at h
  · assumption
  · cases h

/-- Pairs are bound only between fields of two entities. -/
theorem bindPairs_binds {a b : Entity} {name : String} (ha : r.entity a.name = .ok a)
    (hb : r.entity b.name = .ok b) :
    ∀ {pairs : List (String × String)} {m m' : JoinMapping}, m.Binds r.Knows →
      bindPairs a b name m pairs = .ok m' → m'.Binds r.Knows
  | [], m, m', hm, h => by
    cases h
    exact hm
  | (f, g) :: rest, m, m', hm, h => by
    unfold bindPairs at h
    obtain ⟨_, hf, h⟩ := except_bind_ok h
    obtain ⟨_, hg, h⟩ := except_bind_ok h
    have hknown : r.Knows ((a.name, f), (b.name, g)) :=
      ⟨⟨a, ha, requireField_ok hf⟩, b, hb, requireField_ok hg⟩
    exact bindPairs_binds ha hb (hm.bind hknown) h

theorem bindGroup_binds {a b : Entity} {name : String} (ha : r.entity a.name = .ok a)
    (hb : r.entity b.name = .ok b) {pairs : List (String × String)} {m m' : JoinMapping}
    (hm : m.Binds r.Knows) (h : bindGroup a b name m pairs = .ok m') : m'.Binds r.Knows := by
  unfold bindGroup at h
  split at h
  · cases h
  · exact bindPairs_binds ha hb hm h

theorem entity_target (r : Relation) : r.entity r.target.name = .ok r.target := if_pos rfl

/-- A relationship whose entities belong to one catalog. -/
structure OfCatalog (catalog : Catalog) (r : Relation) : Prop where
  source : catalog.find? r.source.name = some r.source
  target : catalog.find? r.target.name = some r.target
  pivot : ∀ p, r.pivot = some p → catalog.find? p.name = some p

namespace OfCatalog

variable {catalog : Catalog}

theorem entity_source (h : r.OfCatalog catalog) : r.entity r.source.name = .ok r.source := by
  unfold entity
  split
  · rename_i heq
    rw [Option.some.inj (h.target.symm.trans (heq ▸ h.source))]
  · exact if_pos rfl

theorem entity_pivot (h : r.OfCatalog catalog) {p : Entity} (hp : r.pivot = some p) :
    r.entity p.name = .ok p := by
  have hfind := h.pivot p hp
  unfold entity
  split
  · rename_i heq
    rw [Option.some.inj (h.target.symm.trans (heq ▸ hfind))]
  · split
    · rename_i heq
      rw [Option.some.inj (h.source.symm.trans (heq ▸ hfind))]
    · simp only [hp, Option.filter_some, beq_self_eq_true, if_true]

end OfCatalog

theorem Built.ofCatalog {catalog : Catalog} {entity name : String}
    {definition : Option RelationDefinition} {pairs : FieldPairs}
    (h : Built catalog entity name definition pairs r) : r.OfCatalog catalog := by
  have hself : ∀ {n : String} {e : Entity}, catalog.find? n = some e →
      catalog.find? e.name = some e := by
    intro n e he
    rw [Catalog.name_of_find? he, he]
  refine ⟨hself h.source, hself h.target, fun p hp => ?_⟩
  have hpivot := (joinMapping_ok h.mapping).1
  rw [hp] at hpivot
  obtain ⟨n, -, hn⟩ := Option.bind_eq_some_iff.1 hpivot.symm
  exact hself hn

/-- The mapping of a relationship that was made states equalities of known fields only. -/
theorem Built.binds {catalog : Catalog} {entity name : String}
    {definition : Option RelationDefinition} {pairs : FieldPairs}
    (h : Built catalog entity name definition pairs r) : r.mapping.Binds r.Knows := by
  have hcatalog := h.ofCatalog
  have hmapping := h.mapping
  generalize hpivot : r.pivot = pivot at hmapping
  cases pairs with
  | direct pairs =>
    unfold joinMapping at hmapping
    obtain ⟨m, hm, heq⟩ := except_bind_ok hmapping
    cases heq
    exact bindGroup_binds hcatalog.entity_source r.entity_target JoinMapping.binds_empty hm
  | throughPivot pivotName toPivot toTarget =>
    unfold joinMapping at hmapping
    obtain ⟨p, hp, hmapping⟩ := except_bind_ok hmapping
    obtain ⟨m, hm, hmapping⟩ := except_bind_ok hmapping
    obtain ⟨m', hm', heq⟩ := except_bind_ok hmapping
    cases heq
    have hentity := hcatalog.entity_pivot hpivot
    have hfirst := bindGroup_binds hcatalog.entity_source hentity JoinMapping.binds_empty hm
    exact bindGroup_binds hentity r.entity_target hfirst hm'

/-! ## Joins -/

/-- The entity of a name that the relationship connects. -/
def part (r : Relation) (name : String) : Entity := (r.entity name).toOption.getD r.target

theorem part_eq {name : String} {e : Entity} (h : r.entity name = .ok e) : r.part name = e := by
  rw [part, h]
  rfl

/-- The fields of a joined entity with the columns they equal, by the pairs of a group. -/
def bindings (r : Relation) (sourceAlias targetAlias : String)
    (mets : List (String × OrderedMap String String)) : List (String × Expr) :=
  mets.flatMap fun met => met.2.entries.map fun p =>
    (p.2, (r.part met.1).columnOf (r.metAlias sourceAlias targetAlias met.1) p.1)

/-- The join of one group of a mapping. -/
def joinOf (r : Relation) (sourceAlias targetAlias : String) (kind : JoinKind)
    (group : String × OrderedMap String (OrderedMap String String)) : Join where
  kind := kind
  table := .named (r.part group.1).table
  aliasName := r.joinedAlias sourceAlias targetAlias group.1
  on := (r.bindings sourceAlias targetAlias group.2.entries).map fun b =>
    ((r.part group.1).columnOf (r.joinedAlias sourceAlias targetAlias group.1) b.1, b.2)

/-- The joins of a relationship, one for each group of its mapping. -/
def joins (r : Relation) (sourceAlias targetAlias : String) (kind : JoinKind) : List Join :=
  r.mapping.groups.entries.map (r.joinOf sourceAlias targetAlias kind)

theorem fieldBindings_eq {e : Entity} (aliasName : String) :
    ∀ {fields : List (String × String)}, (∀ p ∈ fields, e.hasField p.1 = true) →
      fieldBindings e aliasName fields = .ok (fields.map fun p => (p.2, e.columnOf aliasName p.1))
  | [], _ => rfl
  | (f, g) :: rest, h => by
    have hfirst : e.hasField f = true := h _ (List.mem_cons_self ..)
    have hrest := fieldBindings_eq aliasName fun p hp => h p (List.mem_cons_of_mem _ hp)
    rw [fieldBindings, Entity.fieldExpr_eq hfirst, hrest]
    rfl

theorem groupBindings_eq :
    ∀ {mets : List (String × OrderedMap String String)},
      (∀ met ∈ mets, ∃ e, r.entity met.1 = .ok e ∧ ∀ p ∈ met.2.entries, e.hasField p.1 = true) →
      r.groupBindings sourceAlias targetAlias mets = .ok (r.bindings sourceAlias targetAlias mets)
  | [], _ => rfl
  | (name, fields) :: rest, h => by
    obtain ⟨e, he, hfields⟩ := h _ (List.mem_cons_self ..)
    have hrest := groupBindings_eq fun met hmet => h met (List.mem_cons_of_mem _ hmet)
    have hsplit : r.bindings sourceAlias targetAlias ((name, fields) :: rest) =
        (fields.entries.map fun p =>
          (p.2, e.columnOf (r.metAlias sourceAlias targetAlias name) p.1)) ++
          r.bindings sourceAlias targetAlias rest := by
      rw [bindings, List.flatMap_cons, part_eq he, bindings]
    rw [groupBindings, he, except_ok_bind, fieldBindings_eq _ hfields, hrest, hsplit]
    rfl

/-- A group of a bound mapping is joined without fail. -/
theorem joinGroup_eq (h : r.mapping.Binds r.Knows)
    {group : String × OrderedMap String (OrderedMap String String)}
    (hgroup : group ∈ r.mapping.groups.entries) (q : Select) :
    r.joinGroup sourceAlias targetAlias kind group q =
      .ok ⟨⟩ (q.addJoin (r.joinOf sourceAlias targetAlias kind group)) := by
  have hknown : ∀ met ∈ group.2.entries, ∀ p ∈ met.2.entries,
      r.Knows ((met.1, p.1), (group.1, p.2)) :=
    fun met hmet p hp => h.states _ (JoinMapping.states_of_mem hgroup hmet hp)
  obtain ⟨hne, hfilled⟩ := h.filled group hgroup
  obtain ⟨met, hmet⟩ := List.exists_mem_of_ne_nil _ hne
  obtain ⟨p, hp⟩ := List.exists_mem_of_ne_nil _ (hfilled met hmet)
  obtain ⟨-, joined, hjoined, -⟩ := hknown met hmet p hp
  have hbindings : r.groupBindings sourceAlias targetAlias group.2.entries =
      .ok (r.bindings sourceAlias targetAlias group.2.entries) := by
    refine groupBindings_eq fun met hmet => ?_
    obtain ⟨p, hp⟩ := List.exists_mem_of_ne_nil _ (hfilled met hmet)
    obtain ⟨⟨e, he, -⟩, -⟩ := hknown met hmet p hp
    refine ⟨e, he, fun p hp => ?_⟩
    obtain ⟨⟨e', he', hfield⟩, -⟩ := hknown met hmet p hp
    rw [he] at he'
    cases he'
    exact hfield
  have hfields : ∀ b ∈ r.bindings sourceAlias targetAlias group.2.entries,
      joined.hasField b.1 = true := by
    intro b hb
    obtain ⟨met, hmet, hb⟩ := List.mem_flatMap.1 hb
    obtain ⟨p, hp, rfl⟩ := List.mem_map.1 hb
    obtain ⟨-, joined', hjoined', hfield⟩ := hknown met hmet p hp
    rw [hjoined] at hjoined'
    cases hjoined'
    exact hfield
  have hbound : (r.bindings sourceAlias targetAlias group.2.entries).isEmpty = false := by
    rw [List.isEmpty_eq_false_iff]
    exact List.ne_nil_of_mem
      (List.mem_flatMap.2 ⟨met, hmet, List.mem_map.2 ⟨p, hp, rfl⟩⟩)
  unfold joinGroup
  rw [hjoined, hbindings, joinOf, part_eq hjoined]
  show joined.joinAs _ _ kind q = _
  unfold Entity.joinAs
  rw [hbound, Entity.equalities_eq hfields]
  rfl

/-- A relationship whose mapping was bound adds one join for each group, and does not fail. -/
theorem join_eq (h : r.mapping.Binds r.Knows) (q : Select) :
    r.join sourceAlias targetAlias kind q =
      .ok ⟨⟩ (q.addJoins (r.joins sourceAlias targetAlias kind)) := by
  have hall : ∀ (groups : List (String × OrderedMap String (OrderedMap String String))),
      (∀ group ∈ groups, group ∈ r.mapping.groups.entries) → ∀ q : Select,
      groups.forM (r.joinGroup sourceAlias targetAlias kind) q =
        .ok ⟨⟩ (q.addJoins (groups.map (r.joinOf sourceAlias targetAlias kind))) := by
    intro groups
    induction groups with
    | nil =>
      intro _ q
      rw [List.map_nil, Select.addJoins, List.append_nil]
      rfl
    | cons group groups ih =>
      intro hgroups q
      show (r.joinGroup sourceAlias targetAlias kind group >>= fun _ =>
        groups.forM (r.joinGroup sourceAlias targetAlias kind)) q = _
      rw [step_bind_of_ok (joinGroup_eq h (hgroups _ (List.mem_cons_self ..)) q),
        ih fun g hg => hgroups g (List.mem_cons_of_mem _ hg)]
      simp only [Select.addJoins, Select.addJoin, List.map_cons, List.append_assoc,
        List.singleton_append]
  exact hall _ (fun _ h => h) q

/-! ## What field pairs ask for -/

/-- The equalities that field pairs ask for between two aliases, each of a column of the joined table
with one of the table it is joined to. A pivot stands under an alias of its own. -/
def conditions (r : Relation) (sourceAlias targetAlias : String) : FieldPairs → List (Expr × Expr)
  | .direct pairs =>
    pairs.map fun p => (r.target.columnOf targetAlias p.2, r.source.columnOf sourceAlias p.1)
  | .throughPivot pivotName toPivot toTarget =>
    let pivot := r.part pivotName
    let between := pivotAlias sourceAlias targetAlias pivotName
    toPivot.map (fun p => (pivot.columnOf between p.2, r.source.columnOf sourceAlias p.1)) ++
      toTarget.map fun p => (r.target.columnOf targetAlias p.2, pivot.columnOf between p.1)

end Relation

namespace FieldPairs

/-- Of pairs that start from one field only the last, in the place of the first. -/
def kept : FieldPairs → FieldPairs
  | .direct pairs => .direct (OrderedMap.ofList pairs).entries
  | .throughPivot pivot toPivot toTarget =>
    .throughPivot pivot (OrderedMap.ofList toPivot).entries (OrderedMap.ofList toTarget).entries

/-- Whether every field that pairs start from, on either side of a pivot, has one partner. -/
def Functional : FieldPairs → Prop
  | .direct pairs => ∀ p ∈ pairs, ∀ q ∈ pairs, p.1 = q.1 → p.2 = q.2
  | .throughPivot _ toPivot toTarget =>
    (∀ p ∈ toPivot, ∀ q ∈ toPivot, p.1 = q.1 → p.2 = q.2) ∧
      ∀ p ∈ toTarget, ∀ q ∈ toTarget, p.1 = q.1 → p.2 = q.2

end FieldPairs

namespace Relation

variable {r : Relation} {sourceAlias targetAlias : String} {kind : JoinKind} {pairs : FieldPairs}

/-- The one group of field pairs without a pivot. -/
theorem groups_direct {catalog : Catalog} {source target : Entity} {name : String}
    {pairs : List (String × String)} {pivot : Option Entity} {mapping : JoinMapping}
    (h : joinMapping catalog source target name (.direct pairs) = .ok (pivot, mapping)) :
    mapping.groups.entries =
      [(target.name, OrderedMap.empty.insert source.name (.ofList pairs))] := by
  unfold joinMapping at h
  obtain ⟨m, hm, heq⟩ := except_bind_ok h
  cases heq
  obtain ⟨hne, rfl⟩ := bindGroup_ok hm
  rw [bindAll_insertMany _ _ _ hne]
  rfl

/-- The two groups of field pairs through a pivot that is not the target. -/
theorem groups_pivot {catalog : Catalog} {source target : Entity} {name pivotName : String}
    {toPivot toTarget : List (String × String)} {pivot : Option Entity} {mapping : JoinMapping}
    (h : joinMapping catalog source target name (.throughPivot pivotName toPivot toTarget) =
      .ok (pivot, mapping)) :
    ∃ p, pivot = some p ∧ pivotName = p.name ∧ (p.name ≠ target.name →
      mapping.groups.entries =
        [(p.name, OrderedMap.empty.insert source.name (.ofList toPivot)),
          (target.name, OrderedMap.empty.insert p.name (.ofList toTarget))]) := by
  unfold joinMapping at h
  obtain ⟨p, hp, h⟩ := except_bind_ok h
  obtain ⟨m, hm, h⟩ := except_bind_ok h
  obtain ⟨m', hm', heq⟩ := except_bind_ok h
  cases heq
  obtain ⟨hne, rfl⟩ := bindGroup_ok hm
  obtain ⟨hne', rfl⟩ := bindGroup_ok hm'
  refine ⟨p, rfl, (Catalog.name_of_find? (Catalog.entity_ok hp)).symm, fun hapart => ?_⟩
  rw [bindAll_insertMany _ _ _ hne, bindAll_insertMany _ _ _ hne']
  simp only [OrderedMap.get?_insert_of_ne _ (Ne.symm hapart)]
  exact OrderedMap.put_of_not_mem fun hmem => hapart (List.mem_singleton.1 hmem).symm

/-- A relationship whose pivot, if it has one, is neither of its ends. -/
def Apart (r : Relation) : Prop :=
  ∀ p, r.pivot = some p → p.name ≠ r.source.name ∧ p.name ≠ r.target.name

/-- Pairs that give every field one partner ask for no more than those that are kept. -/
theorem mem_conditions_kept (h : pairs.Functional) (e : Expr × Expr) :
    e ∈ r.conditions sourceAlias targetAlias pairs.kept ↔
      e ∈ r.conditions sourceAlias targetAlias pairs := by
  cases pairs with
  | direct pairs => simp only [conditions, FieldPairs.kept, List.mem_map,
      OrderedMap.mem_entries_ofList h]
  | throughPivot pivot toPivot toTarget =>
    simp only [conditions, FieldPairs.kept, List.mem_append, List.mem_map,
      OrderedMap.mem_entries_ofList h.1, OrderedMap.mem_entries_ofList h.2]

/-- The joins of a relationship state what the pairs that are kept ask for, in their order. -/
theorem Built.on_joins {catalog : Catalog} {entity name : String}
    {definition : Option RelationDefinition}
    (h : Built catalog entity name definition pairs r) (hapart : r.Apart)
    (sourceAlias targetAlias : String) (kind : JoinKind) :
    (r.joins sourceAlias targetAlias kind).flatMap Join.on =
      r.conditions sourceAlias targetAlias pairs.kept := by
  have hcatalog := h.ofCatalog
  have hmapping := h.mapping
  generalize hpivot : r.pivot = pivot at hmapping
  have hsource := part_eq hcatalog.entity_source
  have htarget := part_eq r.entity_target
  have hfrom : r.metAlias sourceAlias targetAlias r.source.name = sourceAlias := if_pos rfl
  have hto : r.joinedAlias sourceAlias targetAlias r.target.name = targetAlias := if_pos rfl
  cases pairs with
  | direct pairs =>
    rw [joins, groups_direct hmapping]
    simp [joinOf, bindings, conditions, FieldPairs.kept, OrderedMap.entries_insert_empty, hsource,
      htarget, hfrom, hto]
  | throughPivot pivotName toPivot toTarget =>
    obtain ⟨p, rfl, rfl, hgroups⟩ := groups_pivot hmapping
    obtain ⟨hapartSource, hapartTarget⟩ := hapart p hpivot
    have hmiddle := part_eq (hcatalog.entity_pivot hpivot)
    have hbetween : r.joinedAlias sourceAlias targetAlias p.name =
        pivotAlias sourceAlias targetAlias p.name := by
      rw [joinedAlias, if_neg hapartTarget, if_neg hapartSource]
    have hbetween' : r.metAlias sourceAlias targetAlias p.name =
        pivotAlias sourceAlias targetAlias p.name := by
      rw [metAlias, if_neg hapartSource, if_neg hapartTarget]
    rw [joins, hgroups hapartTarget]
    simp [joinOf, bindings, conditions, FieldPairs.kept, OrderedMap.entries_insert_empty, hsource,
      htarget, hmiddle, hfrom, hto, hbetween, hbetween', Function.comp_def]

end Relation

end GraphLoad
