/-
What the joins of a resolved relationship state. Main statement: joining never fails; and the joins
state exactly what the field pairs of the relationship ask for, those of its definition or those of
the foreign keys, where no two pairs on one side start from one field and the pivot is neither end. Of
two pairs that start from one field only the last is joined, so that a condition is lost.
-/
import GraphLoad.Proofs.Relation.Conditions
import GraphLoad.Proofs.Schema.Reverse

namespace GraphLoad

open Sql

theorem FieldPairs.functional_of_unambiguous {pairs : FieldPairs} {source target : String}
    (h : Unambiguous (pairs.equalities source target)) : pairs.Functional := by
  cases pairs with
  | direct pairs =>
    intro p hp q hq
    exact (h _ (List.mem_map_of_mem hp) _ (List.mem_map_of_mem hq) rfl rfl).1
  | throughPivot pivot toPivot toTarget =>
    constructor
    · intro p hp q hq
      exact (h _ (List.mem_append_left _ (List.mem_map_of_mem hp)) _
        (List.mem_append_left _ (List.mem_map_of_mem hq)) rfl rfl).1
    · intro p hp q hq
      exact (h _ (List.mem_append_right _ (List.mem_map_of_mem hp)) _
        (List.mem_append_right _ (List.mem_map_of_mem hq)) rfl rfl).1

/-- A pivot that the convention finds is neither end. -/
theorem Relation.Built.apart {catalog : Catalog} {entity name : String}
    {definition : Option RelationDefinition} {pairs : FieldPairs} {r : Relation}
    (h : Built catalog entity name definition pairs r)
    (hconventional : definition.bind (·.mapping) = none) : r.Apart := by
  intro p hp
  have hpivot := (joinMapping_ok h.mapping).1
  rw [hp] at hpivot
  have hmapping := h.conventional hconventional
  generalize r.kind = kind at hmapping
  have hpairs := conventionalMapping_ok hmapping
  cases kind
  case manyToMany =>
    obtain ⟨found, toSource, toTarget, hfind, -, -, rfl⟩ := hpairs
    have hname : p.name = found.name := Catalog.name_of_find? hpivot.symm
    rw [hname]
    exact ⟨name_pivot_ne hfind, name_pivot_ne_target hfind⟩
  all_goals
    obtain ⟨key, -, rfl⟩ := hpairs
    cases hpivot

namespace Schema

/-- A relationship that resolves in a schema that comes about is as it would be made now. -/
theorem built_of_relation {s s' : Schema} {entity name : String} {r : Relation} (hs : s.Reachable)
    (h : Schema.relation entity name s = .ok r s') :
    ∃ pairs, Relation.Built s.catalog entity name (s.definitions.get? (entity, name)) pairs r := by
  obtain ⟨hresolves, hget⟩ := relation_ok h
  have hbuild := hresolves.coherent hs.coherent _ _ _ hget
  rw [build_eq hresolves] at hbuild
  exact Relation.build_ok hbuild

/-- A relationship of a schema that comes about joins without fail between any two aliases, by joins of
the kind asked for. If its pivot is neither end, they state what its field pairs ask for, of pairs that
start from one field the last; so exactly what the pairs ask for if every field has one partner. By
convention both is so if no foreign key refers to a field twice. -/
theorem join_conditions {s s' : Schema} {entity name : String} {r : Relation} (hs : s.Reachable)
    (h : Schema.relation entity name s = .ok r s') :
    ∃ pairs, s.pairsOf r = .ok pairs ∧
      ((s.definitions.get? (entity, name)).bind (·.mapping) = none →
        (∀ e ∈ s.catalog.entities, e.RefersOnce) → r.Apart ∧ pairs.Functional) ∧
      ∀ sourceAlias targetAlias kind q, ∃ js,
        r.join sourceAlias targetAlias kind q = .ok ⟨⟩ (q.addJoins js) ∧
        (∀ j ∈ js, j.kind = kind) ∧
        (r.Apart → js.flatMap Join.on = r.conditions sourceAlias targetAlias pairs.kept ∧
          (pairs.Functional → ∀ e, e ∈ js.flatMap Join.on ↔
            e ∈ r.conditions sourceAlias targetAlias pairs)) := by
  obtain ⟨pairs, hbuilt⟩ := built_of_relation hs h
  refine ⟨pairs, pairsOf_built hbuilt, fun hconventional hone => ?_,
    fun sourceAlias targetAlias kind q => ?_⟩
  · have hunambiguous := Relation.unambiguous_conventional hone (mem_of_find? hbuilt.source)
      (mem_of_find? hbuilt.target) (hbuilt.conventional hconventional)
    exact ⟨hbuilt.apart hconventional, FieldPairs.functional_of_unambiguous hunambiguous⟩
  · refine ⟨_, Relation.join_eq hbuilt.binds q, fun j hj => ?_, fun hapart => ?_⟩
    · obtain ⟨group, -, rfl⟩ := List.mem_map.1 hj
      rfl
    · have hon := hbuilt.on_joins hapart sourceAlias targetAlias kind
      refine ⟨hon, fun hfunctional e => ?_⟩
      rw [hon]
      exact Relation.mem_conditions_kept hfunctional e

/-! ## Books with tags, and with two authors -/

/-- One field makes a key. -/
theorem id_ne_nil : ["id"] ≠ [] := List.cons_ne_nil "id" []

/-- Tags. -/
def tag : Entity where
  name := "TAG"
  table := "tag"
  columns := .ofList [("id", "id"), ("word", "word")]
  primaryKey := ["id"]
  foreignKeys := .empty
  primaryKey_ne_nil := id_ne_nil
  primaryKey_declared := by decide
  foreignKeys_declared := by decide

/-- Which book has which tag. The fields are stored in columns of other names. -/
def tagging : Entity where
  name := "BOOK2TAG"
  table := "book2tag"
  columns := .ofList [("book_id", "book"), ("tag_id", "tag")]
  primaryKey := ["book_id", "tag_id"]
  foreignKeys := .empty
  primaryKey_ne_nil := by decide
  primaryKey_declared := by decide
  foreignKeys_declared := by decide

/-- Books and tags by convention. -/
def tagged : Schema := .ofLists [book, tag, tagging] []

/-- The relationship of a name that resolves in a schema. -/
def relation? (s : Schema) (entity name : String) : Option Relation :=
  match Schema.relation entity name s with
  | .ok r _ => some r
  | .error .. => none

theorem relation?_some {s : Schema} {entity name : String} {r : Relation}
    (h : s.relation? entity name = some r) : ∃ s', Schema.relation entity name s = .ok r s' := by
  unfold relation? at h
  split at h
  · rename_i r' s' hr
    cases h
    exact ⟨s', hr⟩
  · cases h

/-- The tags of a book are joined by two conditions, one on each side of the pivot. -/
theorem join_conditions_tagged : tagged.Reachable ∧
    ∃ r s' js, Schema.relation "BOOK" "TAGZ" tagged = .ok r s' ∧
      r.join "BOOK1" "TAG2" .left {} = .ok ⟨⟩ (Select.addJoins {} js) ∧
      ∀ e, e ∈ js.flatMap Join.on ↔ e ∈
        [(Expr.column "BOOK1__TAG2__BOOK2TAG" "book", Expr.column "BOOK1" "id"),
          (Expr.column "TAG2" "id", Expr.column "BOOK1__TAG2__BOOK2TAG" "tag")] := by
  have hreachable : tagged.Reachable := .ofLists _ _
  have hresolves : ((tagged.relation? "BOOK" "TAGZ").any fun r =>
      ((tagged.pairsOf r).toOption.map (r.conditions "BOOK1" "TAG2")) = some
        [(Expr.column "BOOK1__TAG2__BOOK2TAG" "book", Expr.column "BOOK1" "id"),
          (Expr.column "TAG2" "id", Expr.column "BOOK1__TAG2__BOOK2TAG" "tag")]) = true := by
    decide +kernel
  obtain ⟨r, hsome, hconditions⟩ := (Option.any_eq_true _ _).1 hresolves
  have hconditions := of_decide_eq_true hconditions
  obtain ⟨s', hrelation⟩ := relation?_some hsome
  obtain ⟨pairs, hpairs, hconventional, hjoin⟩ := join_conditions hreachable hrelation
  have hone : ∀ e ∈ tagged.catalog.entities, e.RefersOnce := by
    unfold Entity.RefersOnce
    decide +kernel
  obtain ⟨hapart, hfunctional⟩ := hconventional rfl hone
  obtain ⟨js, hjs, -, hstates⟩ := hjoin "BOOK1" "TAG2" .left {}
  rw [hpairs] at hconditions
  refine ⟨hreachable, r, s', js, hrelation, hjs, fun e => ?_⟩
  rw [(hstates hapart).2 hfunctional e, Option.some.inj hconditions]

/-- The books of which an author is both the author and the editor, so it says. -/
def selfEdited : RelationDefinition where
  name := "SELFEDITED"
  target := some "BOOK"
  kind := some .oneToMany
  mapping := some (.direct [("id", "author_id"), ("id", "editor_id")])

/-- Authors, books and the books that authors have edited themselves. -/
def bureau : Schema := .ofLists [author, book] [("AUTHOR", selfEdited)]

/-- Both pairs start from the key of the author, and the first one is lost: the books are joined by
their editor alone. -/
theorem condition_lost : ¬ ∀ (s s' : Schema) (entity name : String) (r : Relation)
    (pairs : FieldPairs) (sourceAlias targetAlias : String) (kind : JoinKind) (js : List Join),
    s.Reachable → Schema.relation entity name s = .ok r s' → s.pairsOf r = .ok pairs →
    sourceAlias ≠ targetAlias →
    r.join sourceAlias targetAlias kind {} = .ok ⟨⟩ (Select.addJoins {} js) →
    ∀ e, e ∈ js.flatMap Join.on ↔ e ∈ r.conditions sourceAlias targetAlias pairs := by
  intro h
  have hresolves : ((bureau.relation? "AUTHOR" "SELFEDITED").any fun r =>
      ((bureau.pairsOf r).toOption.any fun pairs =>
        (Expr.column "BOOK2" "author_id", Expr.column "AUTHOR1" "id") ∈
          r.conditions "AUTHOR1" "BOOK2" pairs) &&
      ((r.joins "AUTHOR1" "BOOK2" .inner).flatMap Join.on =
        [(Expr.column "BOOK2" "editor_id", Expr.column "AUTHOR1" "id")])) = true := by
    decide +kernel
  obtain ⟨r, hsome, hfacts⟩ := (Option.any_eq_true _ _).1 hresolves
  rw [Bool.and_eq_true] at hfacts
  obtain ⟨hasked, hjoined⟩ := hfacts
  obtain ⟨pairs, hpairs, hasked⟩ := (Option.any_eq_true _ _).1 hasked
  obtain ⟨s', hrelation⟩ := relation?_some hsome
  have hreachable : bureau.Reachable := .ofLists _ _
  obtain ⟨_, hbuilt⟩ := built_of_relation hreachable hrelation
  have hstates := (h bureau s' _ _ r pairs "AUTHOR1" "BOOK2" .inner _ hreachable hrelation
    (except_toOption_some hpairs) (by decide) (Relation.join_eq hbuilt.binds {}) _).2
    (of_decide_eq_true hasked)
  rw [of_decide_eq_true hjoined] at hstates
  exact absurd hstates (by decide)

end Schema

end GraphLoad
