/-
The two sides of a pivot. By convention a many-to-many relationship goes through an entity that refers to
both ends, and each side of the join binds the local fields of one of the two foreign keys. Main
statement: the sides share no field just if the two foreign keys do not, and then no column of the pivot
is compared with both ends. An entity that is related to itself by way of a pivot has one foreign key for
both ends, so that each object is joined to the objects with its own key.
-/
import GraphLoad.Proofs.Schema.Conditions

namespace GraphLoad

open Sql

/-- The fields by which an entity refers to another: the local fields of the foreign key that is
declared, else those of the convention. -/
def Entity.refersBy (owner referenced : Entity) : List String :=
  match owner.foreignKeyTo? referenced.name with
  | some declared => declared.keys
  | none => referenced.primaryKey.map (Relation.conventionalKey referenced)

/-- Whether an entity keeps no two of its fields in one column. -/
def Entity.ColumnsApart (e : Entity) : Prop :=
  ∀ f g column, e.columns.get? f = some column → e.columns.get? g = some column → f = g

namespace Relation

variable {catalog : Catalog} {r : Relation} {p owner referenced : Entity} {source name f g : String}
  {key toSource toTarget : List (String × String)}

/-- Whether a field of a pivot is to equal a field of the source. -/
def BindsSource (r : Relation) (pivot : Entity) (field : String) : Prop :=
  ∃ g, r.mapping.States ((r.source.name, g), (pivot.name, field))

/-- Whether a field of a pivot is to equal a field of the target. -/
def BindsTarget (r : Relation) (pivot : Entity) (field : String) : Prop :=
  ∃ g, r.mapping.States ((pivot.name, field), (r.target.name, g))

/-- Whether no field of a pivot is bound to both ends. -/
def SidesApart (r : Relation) (pivot : Entity) : Prop :=
  ∀ f, r.BindsSource pivot f → ¬ r.BindsTarget pivot f

/-- A pivot stands under an alias that is longer than those of the ends. -/
theorem pivotAlias_ne_ends (a b e : String) : pivotAlias a b e ≠ a ∧ pivotAlias a b e ≠ b := by
  have hlength : (pivotAlias a b e).length = a.length + 2 + b.length + 2 + e.length := by
    rw [pivotAlias]
    simp only [String.length_append]
    rfl
  constructor <;>
  · intro heq
    rw [heq] at hlength
    omega

/-! ## Foreign keys -/

theorem foreignKey_fields (h : foreignKey owner referenced source name = .ok key) :
    key.map Prod.fst = owner.refersBy referenced := by
  unfold foreignKey at h
  unfold Entity.refersBy
  cases hdeclared : owner.foreignKeyTo? referenced.name with
  | some declared =>
    rw [hdeclared] at h
    cases h
    rfl
  | none =>
    rw [hdeclared] at h
    dsimp only
    rw [conventionalPairs_ok h, List.map_map]
    rfl

/-- A field by which an entity refers to another stands for one field of its key. -/
theorem foreignKey_functional (h : foreignKey owner referenced source name = .ok key) :
    ∀ a ∈ key, ∀ b ∈ key, a.1 = b.1 → a.2 = b.2 := by
  unfold foreignKey at h
  split at h
  · rename_i declared hdeclared
    cases h
    intro a ha b hb heq
    rw [List.inj_on_of_nodup_map declared.nodup ha hb heq]
  · rw [conventionalPairs_ok h]
    intro a ha b hb heq
    obtain ⟨f, -, rfl⟩ := List.mem_map.1 ha
    obtain ⟨g, -, rfl⟩ := List.mem_map.1 hb
    exact String.append_right_inj _ |>.1 heq

/-- What stands before the last of a character does not depend on what follows it. -/
theorem before_last {c : Char} {xs ys us vs : List Char} (hus : c ∉ us) (hvs : c ∉ vs)
    (h : xs ++ c :: us = ys ++ c :: vs) : xs = ys := by
  rcases List.append_eq_append_iff.1 h with ⟨_ | ⟨d, ds⟩, hys, hrest⟩ | ⟨_ | ⟨d, ds⟩, hxs, hrest⟩
  · rw [hys, List.append_nil]
  · obtain ⟨-, rfl⟩ := List.cons.inj hrest
    exact (hus (List.mem_append_right _ (List.mem_cons_self ..))).elim
  · rw [hxs, List.append_nil]
  · obtain ⟨-, rfl⟩ := List.cons.inj hrest
    exact (hvs (List.mem_append_right _ (List.mem_cons_self ..))).elim

/-- By convention two entities are referred to by different fields, if their names differ in lower case
and the fields of their keys are written without underscores. -/
theorem refersBy_disjoint {a b : Entity} (ha : p.foreignKeyTo? a.name = none)
    (hb : p.foreignKeyTo? b.name = none) (hnames : Text.lower a.name ≠ Text.lower b.name)
    (hkeyA : ∀ k ∈ a.primaryKey, '_' ∉ k.toList) (hkeyB : ∀ k ∈ b.primaryKey, '_' ∉ k.toList) :
    (p.refersBy a).Disjoint (p.refersBy b) := by
  intro f hfa hfb
  rw [Entity.refersBy, ha] at hfa
  rw [Entity.refersBy, hb] at hfb
  obtain ⟨k, hk, rfl⟩ := List.mem_map.1 hfa
  obtain ⟨l, hl, heq⟩ := List.mem_map.1 hfb
  have hletters := congrArg String.toList heq
  simp only [conventionalKey, String.toList_append, List.append_assoc] at hletters
  exact hnames (String.toList_inj.1 (before_last (hkeyB l hl) (hkeyA k hk) hletters).symm)

/-! ## The two groups of a mapping -/

/-- A relationship through a pivot by convention, with the foreign keys of the pivot. -/
structure Pivoted (r : Relation) (p : Entity) (toSource toTarget : List (String × String)) : Prop where
  pivot : r.pivot = some p
  apart : p.name ≠ r.target.name
  source : foreignKey p r.source r.source.name r.name = .ok toSource
  target : foreignKey p r.target r.source.name r.name = .ok toTarget
  knows : ∀ e, r.mapping.States e → r.Knows e
  entity : r.entity p.name = .ok p
  filled : (OrderedMap.ofList (toSource.map Prod.swap)).entries ≠ []
  groups : r.mapping.groups.entries =
    [(p.name, OrderedMap.empty.insert r.source.name (.ofList (toSource.map Prod.swap))),
      (r.target.name, OrderedMap.empty.insert p.name (.ofList toTarget))]
  on : ∀ sourceAlias targetAlias kind, (r.joins sourceAlias targetAlias kind).flatMap Join.on =
    r.conditions sourceAlias targetAlias
      (.throughPivot p.name (OrderedMap.ofList (toSource.map Prod.swap)).entries
        (OrderedMap.ofList toTarget).entries)

theorem Built.pivoted {entity : String} {definition : Option RelationDefinition} {pairs : FieldPairs}
    (h : Built catalog entity name definition pairs r) (hnone : definition.bind (·.mapping) = none)
    (hkind : r.kind = .manyToMany) : ∃ p toSource toTarget, r.Pivoted p toSource toTarget := by
  have hmapping := h.conventional hnone
  rw [hkind, ← h.named] at hmapping
  obtain ⟨found, toSource, toTarget, hfind, hsource, htarget, rfl⟩ := conventionalMapping_ok hmapping
  obtain ⟨p, hp, hname, hgroups⟩ := groups_pivot h.mapping
  have hself : catalog.find? found.name = some found := by
    rcases Option.or_eq_some_iff.1 hfind with hfind | ⟨-, hfind⟩ <;>
      rw [Catalog.name_of_find? hfind, hfind]
  have hsame : some p = some found := by
    rw [← hp, (joinMapping_ok h.mapping).1, ← hself]
    rfl
  cases hsame
  have hapart := h.apart hnone found hp
  have hgroups := hgroups hapart.2
  have hfilled := (h.binds.filled _ (hgroups ▸ List.mem_cons_self ..)).2 _ (List.mem_singleton_self _)
  have hentity := h.ofCatalog.entity_pivot hp
  exact ⟨found, toSource, toTarget, hp, hapart.2, hsource, htarget, h.binds.states, hentity,
    hfilled, hgroups, h.on_joins (h.apart hnone)⟩

namespace Pivoted

variable (h : r.Pivoted p toSource toTarget)
include h

theorem states_source : r.mapping.States ((r.source.name, g), (p.name, f)) ↔
    (OrderedMap.ofList (toSource.map Prod.swap)).get? g = some f := by
  unfold JoinMapping.States JoinMapping.partner?
  rw [OrderedMap.get?, h.groups, OrderedMap.lookup, if_pos rfl, Option.bind_some,
    OrderedMap.get?_insert_self]
  rfl

theorem states_target : r.mapping.States ((p.name, f), (r.target.name, g)) ↔ (f, g) ∈ toTarget := by
  have hfunctional := foreignKey_functional h.target
  rw [← OrderedMap.mem_entries_ofList hfunctional, ← OrderedMap.get?_eq_some_iff]
  unfold JoinMapping.States JoinMapping.partner?
  rw [OrderedMap.get?, h.groups, OrderedMap.lookup, if_neg h.apart, OrderedMap.lookup, if_pos rfl,
    Option.bind_some, OrderedMap.get?_insert_self]
  rfl

/-- An equality of a field of the source was asked for by the foreign key. -/
theorem mem_of_states_source (hstates : r.mapping.States ((r.source.name, g), (p.name, f))) :
    (f, g) ∈ toSource := by
  have hentry := OrderedMap.get?_eq_some_iff.1 (h.states_source.1 hstates)
  have hmem := (OrderedMap.mem_entries_insertMany hentry).resolve_right List.not_mem_nil
  obtain ⟨x, hx, heq⟩ := List.mem_map.1 hmem
  cases heq
  exact hx

theorem bindsSource_refersBy (hf : r.BindsSource p f) : f ∈ p.refersBy r.source := by
  obtain ⟨g, hstates⟩ := hf
  rw [← foreignKey_fields h.source]
  exact List.mem_map_of_mem (h.mem_of_states_source hstates)

theorem bindsTarget_iff : r.BindsTarget p f ↔ f ∈ p.refersBy r.target := by
  unfold BindsTarget
  simp only [h.states_target]
  rw [← foreignKey_fields h.target, List.mem_map]
  exact ⟨fun ⟨g, hg⟩ => ⟨_, hg, rfl⟩, fun ⟨x, hx, heq⟩ => ⟨x.2, heq ▸ hx⟩⟩

/-- Where no foreign key refers to a field twice, all of its fields are bound to the source. -/
theorem bindsSource_iff (hone : p.RefersOnce) : r.BindsSource p f ↔ f ∈ p.refersBy r.source := by
  refine ⟨h.bindsSource_refersBy, fun hf => ?_⟩
  rw [← foreignKey_fields h.source] at hf
  obtain ⟨⟨f, g⟩, hmem, rfl⟩ := List.mem_map.1 hf
  have hpaired := paired_swap (foreignKey_paired hone h.source)
  refine ⟨g, h.states_source.2 (OrderedMap.get?_insertMany (fun a ha b hb => ?_) ?_ _)⟩
  · exact (hpaired a ha b hb).1
  · exact List.mem_map.2 ⟨(f, g), hmem, rfl⟩

/-- Foreign keys without a common field are bound apart, and only those, where none refers to a field
twice. -/
theorem sidesApart_of_disjoint (hdisjoint : (p.refersBy r.source).Disjoint (p.refersBy r.target)) :
    r.SidesApart p :=
  fun _ hsource htarget => hdisjoint (h.bindsSource_refersBy hsource) (h.bindsTarget_iff.1 htarget)

theorem sidesApart_iff (hone : p.RefersOnce) :
    r.SidesApart p ↔ (p.refersBy r.source).Disjoint (p.refersBy r.target) := by
  refine ⟨fun hapart f hsource htarget => ?_, h.sidesApart_of_disjoint⟩
  exact hapart f ((h.bindsSource_iff hone).2 hsource) (h.bindsTarget_iff.2 htarget)

/-- An entity related to itself has its key fields equal the same fields of the pivot at both ends. -/
theorem states_self (hself : r.source = r.target)
    (hstates : r.mapping.States ((r.source.name, g), (p.name, f))) :
    r.mapping.States ((p.name, f), (r.target.name, g)) := by
  have htarget := h.target
  rw [← hself] at htarget
  rw [h.states_target, foreignKey_unique htarget h.source]
  exact h.mem_of_states_source hstates

theorem exists_bindsSource : ∃ f, r.BindsSource p f := by
  obtain ⟨⟨g, f⟩, hmem⟩ := List.exists_mem_of_ne_nil _ h.filled
  exact ⟨f, g, h.states_source.2 (OrderedMap.get?_eq_some_iff.2 hmem)⟩

theorem not_sidesApart_self (hself : r.source = r.target) : ¬ r.SidesApart p := by
  obtain ⟨f, g, hstates⟩ := h.exists_bindsSource
  exact fun hapart => hapart f ⟨g, hstates⟩ ⟨g, h.states_self hself hstates⟩

/-! ## The joins of the two sides -/

variable {sourceAlias targetAlias : String} {kind : JoinKind}

/-- The joins compare each bound field of the pivot with a field of the source or of the target. -/
theorem mem_on {e : Expr × Expr} : e ∈ (r.joins sourceAlias targetAlias kind).flatMap Join.on ↔
    (∃ f g, r.mapping.States ((r.source.name, g), (p.name, f)) ∧
      e = (p.columnOf (pivotAlias sourceAlias targetAlias p.name) f, r.source.columnOf sourceAlias g)) ∨
    ∃ f g, r.mapping.States ((p.name, f), (r.target.name, g)) ∧
      e = (r.target.columnOf targetAlias g, p.columnOf (pivotAlias sourceAlias targetAlias p.name) f) := by
  simp only [h.on, conditions, part_eq h.entity, List.mem_append, List.mem_map, Prod.exists, h.states_source,
    h.states_target, OrderedMap.get?_eq_some_iff, OrderedMap.mem_entries_ofList
      (foreignKey_functional h.target)]
  refine or_congr ?_ ?_
  · constructor
    · rintro ⟨g, f, hmem, heq⟩
      exact ⟨f, g, hmem, heq.symm⟩
    · rintro ⟨f, g, hmem, heq⟩
      exact ⟨g, f, hmem, heq.symm⟩
  · constructor
    · rintro ⟨f, g, hmem, heq⟩
      exact ⟨f, g, hmem, heq.symm⟩
    · rintro ⟨f, g, hmem, heq⟩
      exact ⟨f, g, hmem, heq.symm⟩

/-- A column of the pivot that is compared with the source is that of a field bound to the source. -/
theorem compares_source {column : String} {x : Expr}
    (hx : (Expr.column (pivotAlias sourceAlias targetAlias p.name) column, x) ∈
      (r.joins sourceAlias targetAlias kind).flatMap Join.on) :
    ∃ f g, r.mapping.States ((r.source.name, g), (p.name, f)) ∧ p.columns.get? f = some column ∧
      x = r.source.columnOf sourceAlias g := by
  rcases h.mem_on.1 hx with ⟨f, g, hstates, heq⟩ | ⟨f, g, -, heq⟩
  · obtain ⟨-, joined, hjoined, hfield⟩ := h.knows _ hstates
    cases h.entity.symm.trans hjoined
    obtain ⟨hcolumn, rfl⟩ := Prod.mk.inj heq
    obtain ⟨c, hc⟩ := Option.isSome_iff_exists.1 hfield
    obtain ⟨-, hcolumn⟩ := Expr.column.inj hcolumn
    rw [hc] at hcolumn
    exact ⟨f, g, hstates, hcolumn ▸ hc, rfl⟩
  · exact ((pivotAlias_ne_ends ..).2 (Expr.column.inj (Prod.mk.inj heq).1).1).elim

/-- A column of the pivot that is compared with the target is that of a field bound to the target. -/
theorem compares_target {column : String} {y : Expr}
    (hy : (y, Expr.column (pivotAlias sourceAlias targetAlias p.name) column) ∈
      (r.joins sourceAlias targetAlias kind).flatMap Join.on) :
    ∃ f g, r.mapping.States ((p.name, f), (r.target.name, g)) ∧ p.columns.get? f = some column ∧
      y = r.target.columnOf targetAlias g := by
  rcases h.mem_on.1 hy with ⟨f, g, -, heq⟩ | ⟨f, g, hstates, heq⟩
  · exact ((pivotAlias_ne_ends ..).1 (Expr.column.inj (Prod.mk.inj heq).2).1).elim
  · obtain ⟨⟨met, hmet, hfield⟩, -⟩ := h.knows _ hstates
    cases h.entity.symm.trans hmet
    obtain ⟨rfl, hcolumn⟩ := Prod.mk.inj heq
    obtain ⟨c, hc⟩ := Option.isSome_iff_exists.1 hfield
    obtain ⟨-, hcolumn⟩ := Expr.column.inj hcolumn
    rw [hc] at hcolumn
    exact ⟨f, g, hstates, hcolumn ▸ hc, rfl⟩

/-- Sides that are apart compare no column of the pivot with both ends. -/
theorem not_mem_on (hsides : r.SidesApart p) (hcolumns : p.ColumnsApart) {column : String} {x y : Expr}
    (hx : (Expr.column (pivotAlias sourceAlias targetAlias p.name) column, x) ∈
      (r.joins sourceAlias targetAlias kind).flatMap Join.on) :
    (y, Expr.column (pivotAlias sourceAlias targetAlias p.name) column) ∉
      (r.joins sourceAlias targetAlias kind).flatMap Join.on := by
  intro hy
  obtain ⟨f, g, hsource, hf, -⟩ := h.compares_source hx
  obtain ⟨f', g', htarget, hf', -⟩ := h.compares_target hy
  cases hcolumns f f' column hf hf'
  exact hsides f ⟨g, hsource⟩ ⟨g', htarget⟩

/-- An entity related to itself is joined by its own key: what a column of the pivot has to equal at the
source it has to equal at the target. -/
theorem mem_on_self (hself : r.source = r.target) {column own : String}
    (hx : (Expr.column (pivotAlias sourceAlias targetAlias p.name) column, Expr.column sourceAlias own) ∈
      (r.joins sourceAlias targetAlias kind).flatMap Join.on) :
    (Expr.column targetAlias own, Expr.column (pivotAlias sourceAlias targetAlias p.name) column) ∈
      (r.joins sourceAlias targetAlias kind).flatMap Join.on := by
  obtain ⟨f, g, hstates, hf, hown⟩ := h.compares_source hx
  refine h.mem_on.2 (.inr ⟨f, g, h.states_self hself hstates, ?_⟩)
  rw [← hself]
  obtain ⟨-, rfl⟩ := Expr.column.inj hown
  rw [Entity.columnOf, Entity.columnOf, hf]
  rfl

end Pivoted

end Relation

namespace Schema

/-- A relationship without a definition that is many-to-many goes through a pivot, and binds to the target
all the fields by which the pivot refers to it, and to the source some of those by which it refers to
that. So the two sides share no field if the foreign keys do not, and only then if they refer to no field
twice; and no column of the pivot is compared with both ends, if it keeps its fields in columns of their
own. Of an entity that is related to itself the sides are never apart: every condition on the source is
made on the target. -/
theorem pivot_sides {s s' : Schema} {entity name : String} {r : Relation} (hs : s.Reachable)
    (h : Schema.relation entity name s = .ok r s') (hnone : s.definitions.get? (entity, name) = none)
    (hkind : r.kind = .manyToMany) :
    ∃ p, r.pivot = some p ∧
      (∀ f, r.BindsTarget p f ↔ f ∈ p.refersBy r.target) ∧
      (∀ f, r.BindsSource p f → f ∈ p.refersBy r.source) ∧
      ((p.refersBy r.source).Disjoint (p.refersBy r.target) → r.SidesApart p) ∧
      (p.RefersOnce → (r.SidesApart p ↔ (p.refersBy r.source).Disjoint (p.refersBy r.target))) ∧
      (r.source = r.target → ¬ r.SidesApart p) ∧
      ∀ sourceAlias targetAlias kind q, ∃ js,
        r.join sourceAlias targetAlias kind q = .ok ⟨⟩ (q.addJoins js) ∧
        (r.SidesApart p → p.ColumnsApart → ∀ column x y,
          (Expr.column (Relation.pivotAlias sourceAlias targetAlias p.name) column, x) ∈ js.flatMap Join.on →
          (y, Expr.column (Relation.pivotAlias sourceAlias targetAlias p.name) column) ∉
            js.flatMap Join.on) ∧
        (r.source = r.target → ∀ column own,
          (Expr.column (Relation.pivotAlias sourceAlias targetAlias p.name) column,
            Expr.column sourceAlias own) ∈ js.flatMap Join.on →
          (Expr.column targetAlias own,
            Expr.column (Relation.pivotAlias sourceAlias targetAlias p.name) column) ∈
            js.flatMap Join.on) := by
  obtain ⟨pairs, hbuilt⟩ := built_of_relation hs h
  obtain ⟨p, toSource, toTarget, hpivoted⟩ := hbuilt.pivoted (by rw [hnone]; rfl) hkind
  refine ⟨p, hpivoted.pivot, fun f => hpivoted.bindsTarget_iff, fun f => hpivoted.bindsSource_refersBy,
    hpivoted.sidesApart_of_disjoint, hpivoted.sidesApart_iff, hpivoted.not_sidesApart_self,
    fun sourceAlias targetAlias kind q => ⟨_, Relation.join_eq hbuilt.binds q, ?_, ?_⟩⟩
  · exact fun hsides hcolumns column x y => hpivoted.not_mem_on hsides hcolumns
  · exact fun hself column own => hpivoted.mem_on_self hself

/-- The two fields of a tagging belong to one end each. -/
theorem pivot_sides_tagged : ∃ r s' p, Schema.relation "BOOK" "TAGZ" tagged = .ok r s' ∧
    r.pivot = some p ∧ r.BindsTarget p "tag_id" ∧ r.SidesApart p := by
  have hfacts : ((tagged.relation? "BOOK" "TAGZ").any fun r => r.kind = .manyToMany ∧
      r.source = book ∧ r.target = tag ∧ r.pivot = some tagging) = true := by
    decide +kernel
  obtain ⟨r, hsome, hfacts⟩ := (Option.any_eq_true _ _).1 hfacts
  obtain ⟨hkind, hsource, htarget, hpivot⟩ := of_decide_eq_true hfacts
  obtain ⟨s', hrelation⟩ := relation?_some hsome
  obtain ⟨p, hp, hbinds, -, hdisjoint, -⟩ :=
    pivot_sides (.ofLists _ _) hrelation (by decide +kernel) hkind
  cases hp.symm.trans hpivot
  rw [hsource, htarget] at hdisjoint
  refine ⟨r, s', tagging, hrelation, hpivot, (hbinds _).2 ?_, hdisjoint ?_⟩
  · rw [htarget]
    decide +kernel
  · exact Relation.refersBy_disjoint rfl rfl (by decide +kernel) (by decide +kernel) (by decide +kernel)

/-- Which author is the friend of which. -/
def friendship : Entity where
  name := "AUTHOR2AUTHOR"
  table := "author2author"
  columns := .ofList [("author_id", "author_id"), ("friend_id", "friend_id")]
  primaryKey := ["author_id", "friend_id"]
  foreignKeys := .empty
  primaryKey_ne_nil := by decide
  primaryKey_declared := by decide
  foreignKeys_declared := by decide

/-- Authors and their friends. -/
def circle : Schema := .ofLists [author, friendship] []

/-- The friends of an author are joined through the author's own field on both sides, so that every author
is his one friend. -/
theorem pivot_sides_meet : ¬ ∀ (s s' : Schema) (entity name : String) (r : Relation) (p : Entity),
    s.Reachable → Schema.relation entity name s = .ok r s' → s.definitions.get? (entity, name) = none →
    r.kind = .manyToMany → r.pivot = some p → r.SidesApart p := by
  intro h
  have hfacts : ((circle.relation? "AUTHOR" "AUTHORZ").any fun r => r.kind = .manyToMany ∧
      r.pivot = some friendship ∧ r.source.name = "AUTHOR" ∧ r.target.name = "AUTHOR" ∧
      r.mapping.partner? "AUTHOR2AUTHOR" "AUTHOR" "id" = some "author_id" ∧
      r.mapping.partner? "AUTHOR" "AUTHOR2AUTHOR" "author_id" = some "id") = true := by
    decide +kernel
  obtain ⟨r, hsome, hfacts⟩ := (Option.any_eq_true _ _).1 hfacts
  obtain ⟨hkind, hpivot, hsource, htarget, hthere, hback⟩ := of_decide_eq_true hfacts
  obtain ⟨s', hrelation⟩ := relation?_some hsome
  have hapart := h circle s' _ _ r friendship (.ofLists _ _) hrelation (by decide +kernel) hkind hpivot
  refine hapart "author_id" ⟨"id", ?_⟩ ⟨"id", ?_⟩
  · rw [hsource]
    exact hthere
  · rw [htarget]
    exact hback

end Schema

end GraphLoad
