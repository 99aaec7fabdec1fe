/-
Relationships that the convention settles: the derived way back of a relationship leads back to its
source and is of the reversed kind, and its field pairs are those of the way there exchanged, since
both ends find the same foreign keys. Only the pivot of a many-to-many relationship is looked for in
an order that depends on the end.
-/
import GraphLoad.Proofs.Relation.Mapping
import Mathlib.Data.List.Nodup

namespace GraphLoad

/-- An entity none of whose foreign keys refers to a field twice. -/
def Entity.RefersOnce (e : Entity) : Prop :=
  ∀ key ∈ e.foreignKeys.values, key.values.Nodup

namespace RelationKind

theorem toList_append_char (s : String) (c : Char) :
    (s ++ String.ofList [c]).toList = s.toList ++ [c] := by
  rw [String.toList_append, String.toList_ofList]

theorem baseName_append {c : Char} (hc : c = 'Z' ∨ c = 'S' ∨ c = '1') (s : String) :
    baseName (s ++ String.ofList [c]) = s := by
  unfold baseName
  rw [toList_append_char, List.getLast?_concat, List.dropLast_concat, String.ofList_toList]
  rcases hc with rfl | rfl | rfl <;> rfl

/-- The two kinds of one edge seen from its ends. -/
def Faces : RelationKind → RelationKind → Prop
  | .manyToMany, k => k = .manyToMany
  | .manyToOne, k => k = .oneToMany ∨ k = .oneToOne
  | .oneToMany, k => k = .manyToOne
  | .oneToOne, k => k = .manyToOne

theorem faces_reverse (k : RelationKind) : k.Faces k.reverse := by
  cases k <;> simp [Faces, reverse]

end RelationKind

namespace Relation

/-! ## Derived names -/

theorem baseName_conventionalReverse (e : Entity) (k : RelationKind) :
    RelationKind.baseName (conventionalReverse e k) = e.name := by
  unfold conventionalReverse
  cases k <;> exact RelationKind.baseName_append (by decide) _

theorem ofName_conventionalReverse (e : Entity) (k : RelationKind) :
    RelationKind.ofName (conventionalReverse e k) = k.reverse := by
  unfold conventionalReverse RelationKind.ofName
  cases k <;>
    (simp only [RelationKind.suffixChar, RelationKind.reverse, Option.toList_some,
      RelationKind.toList_append_char, List.getLast?_concat])

/-! ## Foreign keys -/

theorem conventionalPairs_ok {owner referenced : Entity} {source name : String} :
    ∀ {fields : List String} {pairs : List (String × String)},
      conventionalPairs owner referenced source name fields = .ok pairs →
      pairs = fields.map fun field => (conventionalKey referenced field, field)
  | [], pairs, h => by cases h; rfl
  | field :: rest, pairs, h => by
    unfold conventionalPairs at h
    dsimp only at h
    split at h
    · obtain ⟨others, hothers, h⟩ := except_bind_ok h
      cases h
      rw [conventionalPairs_ok hothers]
      rfl
    · cases h

/-- The foreign key between two entities does not depend on what it is looked for. -/
theorem foreignKey_unique {owner referenced : Entity} {source name source' name' : String}
    {a b : List (String × String)} (ha : foreignKey owner referenced source name = .ok a)
    (hb : foreignKey owner referenced source' name' = .ok b) : a = b := by
  unfold foreignKey at ha hb
  split at ha
  · rename_i declared hd
    rw [hd] at hb
    cases ha
    cases hb
    rfl
  · rename_i hd
    rw [hd] at hb
    rw [conventionalPairs_ok ha, conventionalPairs_ok hb]

theorem foreignKey_paired {owner referenced : Entity} {source name : String}
    {pairs : List (String × String)} (hone : owner.RefersOnce)
    (h : foreignKey owner referenced source name = .ok pairs) :
    ∀ p ∈ pairs, ∀ q ∈ pairs, (p.1 = q.1 ↔ p.2 = q.2) := by
  unfold foreignKey at h
  split at h
  · rename_i declared hd
    cases h
    have hvalues : declared.values.Nodup := by
      refine hone _ (List.mem_map.2 ⟨(referenced.name, declared), ?_, rfl⟩)
      exact OrderedMap.get?_eq_some_iff.1 hd
    intro p hp q hq
    constructor
    · intro heq
      rw [List.inj_on_of_nodup_map declared.nodup hp hq heq]
    · intro heq
      rw [List.inj_on_of_nodup_map hvalues hp hq heq]
  · have hpairs := conventionalPairs_ok h
    subst hpairs
    intro p hp q hq
    obtain ⟨f, -, rfl⟩ := List.mem_map.1 hp
    obtain ⟨g, -, rfl⟩ := List.mem_map.1 hq
    refine ⟨fun heq => ?_, fun heq => by rw [show f = g from heq]⟩
    exact String.append_right_inj _ |>.1 heq

/-! ## Conventional field pairs -/

/-- Whether the pivots that the two ends of a many-to-many relationship look for are the same: not
both names are taken, unless they are one. -/
def PivotAgreed (catalog : Catalog) (source target : Entity) : Prop :=
  (catalog.find? (source.name ++ "2" ++ target.name)).or
      (catalog.find? (target.name ++ "2" ++ source.name)) =
    (catalog.find? (target.name ++ "2" ++ source.name)).or
      (catalog.find? (source.name ++ "2" ++ target.name))

theorem conventionalPivot_ok {catalog : Catalog} {source target pivot : Entity} {name : String}
    (h : conventionalPivot catalog source target name = .ok pivot) :
    (catalog.find? (source.name ++ "2" ++ target.name)).or
      (catalog.find? (target.name ++ "2" ++ source.name)) = some pivot := by
  unfold conventionalPivot at h
  dsimp only at h
  split at h
  · rename_i p hp; cases h; exact hp
  · cases h

theorem length_name_pivot {catalog : Catalog} {source target pivot : Entity}
    (h : (catalog.find? (source.name ++ "2" ++ target.name)).or
      (catalog.find? (target.name ++ "2" ++ source.name)) = some pivot) :
    pivot.name.length = source.name.length + 1 + target.name.length := by
  rcases Option.or_eq_some_iff.1 h with h | ⟨-, h⟩ <;>
    (rw [Catalog.name_of_find? h, String.length_append, String.length_append]
     show _ + 1 + _ = _
     omega)

/-- A pivot is named apart from both of its ends. -/
theorem name_pivot_ne {catalog : Catalog} {source target pivot : Entity}
    (h : (catalog.find? (source.name ++ "2" ++ target.name)).or
      (catalog.find? (target.name ++ "2" ++ source.name)) = some pivot) :
    pivot.name ≠ source.name := by
  have hlen := length_name_pivot h
  intro heq
  rw [heq] at hlen
  omega

theorem name_pivot_ne_target {catalog : Catalog} {source target pivot : Entity}
    (h : (catalog.find? (source.name ++ "2" ++ target.name)).or
      (catalog.find? (target.name ++ "2" ++ source.name)) = some pivot) :
    pivot.name ≠ target.name := by
  have hlen := length_name_pivot h
  intro heq
  rw [heq] at hlen
  omega

theorem conventionalMapping_ok {catalog : Catalog} {source target : Entity} {kind : RelationKind}
    {name : String} {pairs : FieldPairs}
    (h : conventionalMapping catalog source target kind name = .ok pairs) :
    match kind with
    | .manyToOne => ∃ key, foreignKey source target source.name name = .ok key ∧ pairs = .direct key
    | .manyToMany => ∃ pivot toSource toTarget,
        (catalog.find? (source.name ++ "2" ++ target.name)).or
          (catalog.find? (target.name ++ "2" ++ source.name)) = some pivot ∧
        foreignKey pivot source source.name name = .ok toSource ∧
        foreignKey pivot target source.name name = .ok toTarget ∧
        pairs = .throughPivot pivot.name (toSource.map Prod.swap) toTarget
    | _ => ∃ key, foreignKey target source source.name name = .ok key ∧
        pairs = .direct (key.map Prod.swap) := by
  unfold conventionalMapping at h
  cases kind <;> dsimp only at h ⊢
  case manyToOne =>
    obtain ⟨key, hkey, h⟩ := except_bind_ok h
    cases h
    exact ⟨key, hkey, rfl⟩
  case manyToMany =>
    obtain ⟨pivot, hpivot, h⟩ := except_bind_ok h
    obtain ⟨toSource, hsource, h⟩ := except_bind_ok h
    obtain ⟨toTarget, htarget, h⟩ := except_bind_ok h
    cases h
    exact ⟨pivot, toSource, toTarget, conventionalPivot_ok hpivot, hsource, htarget, rfl⟩
  all_goals
    obtain ⟨key, hkey, h⟩ := except_bind_ok h
    cases h
    exact ⟨key, hkey, rfl⟩

/-- By convention, the field pairs of the way back are those of the way there exchanged. -/
theorem conventionalMapping_converse {catalog : Catalog} {source target : Entity}
    {kind back : RelationKind} {name name' : String} {pairs pairs' : FieldPairs}
    (h : conventionalMapping catalog source target kind name = .ok pairs)
    (h' : conventionalMapping catalog target source back name' = .ok pairs')
    (hkinds : kind.Faces back)
    (hpivot : kind = .manyToMany → PivotAgreed catalog source target) :
    pairs' = pairs.converse := by
  have hp := conventionalMapping_ok h
  have hp' := conventionalMapping_ok h'
  cases kind with
  | manyToMany =>
    obtain rfl : back = .manyToMany := hkinds
    obtain ⟨pivot, toSource, toTarget, hfind, hsource, htarget, rfl⟩ := hp
    obtain ⟨pivot', toSource', toTarget', hfind', hsource', htarget', rfl⟩ := hp'
    rw [← hpivot rfl, hfind] at hfind'
    cases hfind'
    rw [foreignKey_unique hsource' htarget, foreignKey_unique htarget' hsource]
    simp [FieldPairs.converse]
  | manyToOne =>
    obtain ⟨key, hkey, rfl⟩ := hp
    obtain ⟨key', hkey', rfl⟩ : ∃ key', foreignKey source target target.name name' = .ok key' ∧
        pairs' = .direct (key'.map Prod.swap) := by
      rcases hkinds with rfl | rfl <;> exact hp'
    rw [foreignKey_unique hkey' hkey]
    rfl
  | oneToMany =>
    obtain rfl : back = .manyToOne := hkinds
    obtain ⟨key, hkey, rfl⟩ := hp
    obtain ⟨key', hkey', rfl⟩ := hp'
    rw [foreignKey_unique hkey' hkey]
    simp [FieldPairs.converse]
  | oneToOne =>
    obtain rfl : back = .manyToOne := hkinds
    obtain ⟨key, hkey, rfl⟩ := hp
    obtain ⟨key', hkey', rfl⟩ := hp'
    rw [foreignKey_unique hkey' hkey]
    simp [FieldPairs.converse]

theorem paired_swap {pairs : List (String × String)}
    (h : ∀ p ∈ pairs, ∀ q ∈ pairs, (p.1 = q.1 ↔ p.2 = q.2)) :
    ∀ p ∈ pairs.map Prod.swap, ∀ q ∈ pairs.map Prod.swap, (p.1 = q.1 ↔ p.2 = q.2) := by
  intro p hp q hq
  obtain ⟨p', hp', rfl⟩ := List.mem_map.1 hp
  obtain ⟨q', hq', rfl⟩ := List.mem_map.1 hq
  exact (h p' hp' q' hq').symm

theorem unambiguous_side {pairs : List (String × String)} {a b : String}
    (h : ∀ p ∈ pairs, ∀ q ∈ pairs, (p.1 = q.1 ↔ p.2 = q.2)) :
    Unambiguous (pairs.map fun p => ((a, p.1), (b, p.2))) := by
  intro e he e' he' _ _
  obtain ⟨p, hp, rfl⟩ := List.mem_map.1 he
  obtain ⟨q, hq, rfl⟩ := List.mem_map.1 he'
  exact h p hp q hq

/-- Where foreign keys refer to every field once, conventional field pairs give every field one
partner. -/
theorem unambiguous_conventional {catalog : Catalog} {source target : Entity}
    {kind : RelationKind} {name : String} {pairs : FieldPairs}
    (hone : ∀ e ∈ catalog.entities, e.RefersOnce) (hsource : source ∈ catalog.entities)
    (htarget : target ∈ catalog.entities)
    (h : conventionalMapping catalog source target kind name = .ok pairs) :
    Unambiguous (pairs.equalities source.name target.name) := by
  have hp := conventionalMapping_ok h
  cases kind with
  | manyToOne =>
    obtain ⟨key, hkey, rfl⟩ := hp
    exact unambiguous_side (foreignKey_paired (hone source hsource) hkey)
  | manyToMany =>
    obtain ⟨pivot, toSource, toTarget, hfind, hkey, hkey', rfl⟩ := hp
    have hpivot : pivot.RefersOnce := by
      apply hone
      rcases Option.or_eq_some_iff.1 hfind with h | ⟨-, h⟩ <;> exact List.mem_of_find?_eq_some h
    have hne := name_pivot_ne hfind
    have hleft := unambiguous_side (a := source.name) (b := pivot.name)
      (paired_swap (foreignKey_paired hpivot hkey))
    have hright := unambiguous_side (a := pivot.name) (b := target.name)
      (foreignKey_paired hpivot hkey')
    intro e he e' he' h1 h2
    -- an equality with the source and one with the target differ in the entity they start from
    rcases List.mem_append.1 he with he | he <;> rcases List.mem_append.1 he' with he' | he'
    · exact hleft e he e' he' h1 h2
    · obtain ⟨p, -, rfl⟩ := List.mem_map.1 he
      obtain ⟨q, -, rfl⟩ := List.mem_map.1 he'
      exact (hne h1.symm).elim
    · obtain ⟨p, -, rfl⟩ := List.mem_map.1 he
      obtain ⟨q, -, rfl⟩ := List.mem_map.1 he'
      exact (hne h1).elim
    · exact hright e he e' he' h1 h2
  | oneToMany =>
    obtain ⟨key, hkey, rfl⟩ := hp
    exact unambiguous_side (paired_swap (foreignKey_paired (hone target htarget) hkey))
  | oneToOne =>
    obtain ⟨key, hkey, rfl⟩ := hp
    exact unambiguous_side (paired_swap (foreignKey_paired (hone target htarget) hkey))

/-! ## Built relationships -/

/-- A relationship that was made from a definition, or from none, with the field pairs it goes by. -/
structure Built (catalog : Catalog) (entity name : String) (definition : Option RelationDefinition)
    (pairs : FieldPairs) (r : Relation) : Prop where
  source : catalog.find? entity = some r.source
  named : r.name = name
  target : catalog.find?
    ((definition.bind (·.target)).getD (RelationKind.baseName name)) = some r.target
  kind : r.kind = (definition.bind (·.kind)).getD (RelationKind.ofName name)
  declared : ∀ p, definition.bind (·.mapping) = some p → pairs = p
  conventional : definition.bind (·.mapping) = none →
    conventionalMapping catalog r.source r.target r.kind name = .ok pairs
  mapping : joinMapping catalog r.source r.target name pairs = .ok (r.pivot, r.mapping)
  reverseName : r.reverseName =
    (definition.bind (·.reverse)).getD (conventionalReverse r.source r.kind)
  reverseDeclared : r.reverseDeclared = (definition.bind (·.reverse)).isSome

theorem targetEntity_ok {catalog : Catalog} {entity name : String}
    {definition : Option RelationDefinition} {target : Entity}
    (h : targetEntity catalog entity name definition = .ok target) :
    catalog.find? ((definition.bind (·.target)).getD (RelationKind.baseName name)) =
      some target := by
  unfold targetEntity at h
  dsimp only at h
  split at h
  · rename_i t ht; cases h; exact ht
  · cases h
  · cases h

theorem build_ok {catalog : Catalog} {entity name : String}
    {definition : Option RelationDefinition} {r : Relation}
    (h : build catalog entity name definition = .ok r) :
    ∃ pairs, Built catalog entity name definition pairs r := by
  unfold build at h
  obtain ⟨source, hsource, h⟩ := except_bind_ok h
  obtain ⟨target, htarget, h⟩ := except_bind_ok h
  dsimp only at h
  cases hmap : definition.bind (·.mapping) <;> rw [hmap] at h <;> dsimp only at h
  case none =>
    obtain ⟨pairs, hpairs, h⟩ := except_bind_ok h
    obtain ⟨⟨pivot, mapping⟩, hmapping, h⟩ := except_bind_ok h
    cases h
    exact ⟨pairs, Catalog.entity_ok hsource, rfl, targetEntity_ok htarget, rfl,
      fun p hp => (by rw [hmap] at hp; cases hp), fun _ => hpairs, hmapping, rfl, rfl⟩
  case some pairs =>
    obtain ⟨pairs, ⟨⟩, h⟩ := except_bind_ok h
    obtain ⟨⟨pivot, mapping⟩, hmapping, h⟩ := except_bind_ok h
    cases h
    exact ⟨pairs, Catalog.entity_ok hsource, rfl, targetEntity_ok htarget, rfl,
      fun p hp => (by rw [hmap] at hp; cases hp; rfl), fun hnone => (by rw [hmap] at hnone; cases hnone),
      hmapping, rfl, rfl⟩

end Relation

end GraphLoad
