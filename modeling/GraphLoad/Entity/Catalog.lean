/-
The entities of a schema in the order they were first declared, each name once.
-/
import GraphLoad.Entity

namespace GraphLoad

/-- Entities with distinct names. -/
structure Catalog where
  entities : List Entity
  distinct : (entities.map Entity.name).Nodup

namespace Catalog

/-- The catalog without entities. -/
def empty : Catalog := ⟨[], List.nodup_nil⟩

/-- The entity of a name. -/
def find? (c : Catalog) (name : String) : Option Entity :=
  c.entities.find? (·.name == name)

/-- The entity of a name, or the error that there is none. -/
def entity (c : Catalog) (name : String) : Except LoadError Entity :=
  match c.find? name with
  | some e => .ok e
  | none => .error (.unknownEntity name)

/-- The entities with `e` in the place of the one of its name, or at the end. -/
def place (e : Entity) : List Entity → List Entity
  | [] => [e]
  | x :: xs => if x.name = e.name then e :: xs else x :: place e xs

theorem names_place (e : Entity) (xs : List Entity) :
    (place e xs).map Entity.name =
      if e.name ∈ xs.map Entity.name then xs.map Entity.name
      else xs.map Entity.name ++ [e.name] := by
  induction xs with
  | nil => simp [place]
  | cons x xs ih =>
    by_cases h : x.name = e.name
    · simp [place, h]
    · simp only [place, if_neg h, List.map_cons, ih, List.mem_cons, Ne.symm h, false_or]
      split <;> simp

theorem distinct_place (e : Entity) {xs : List Entity} (h : (xs.map Entity.name).Nodup) :
    ((place e xs).map Entity.name).Nodup := by
  rw [names_place]
  split
  · exact h
  · next hn =>
    rw [List.nodup_append]
    refine ⟨h, by simp, fun a ha b hb => ?_⟩
    simp only [List.mem_singleton] at hb
    rintro rfl
    exact hn (hb ▸ ha)

/-- Adds an entity; it replaces one of the same name. -/
def insert (c : Catalog) (e : Entity) : Catalog :=
  ⟨place e c.entities, distinct_place e c.distinct⟩

/-- The catalog of a list of entities, added in order. -/
def ofList (entities : List Entity) : Catalog := entities.foldl insert empty

theorem name_of_find? {c : Catalog} {name : String} {e : Entity} (h : c.find? name = some e) :
    e.name = name := by
  have hs := List.find?_some h
  simpa using hs

end Catalog

end GraphLoad
