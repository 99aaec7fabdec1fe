/-
Join mappings as sets of field equalities: which equalities field pairs state, that binding the pairs
one by one states just those where no field has two partners, and what exchanging the two sides does.
-/
import GraphLoad.Proofs.OrderedMap
import GraphLoad.Proofs.Steps
import GraphLoad.Relation

namespace GraphLoad

/-- An equality of two fields, each with its entity; the second one belongs to the joined entity. -/
abbrev Equality := (String × String) × (String × String)

namespace JoinMapping

/-- The field that a field of `source` equals in the join of `target`. -/
def partner? (m : JoinMapping) (target source field : String) : Option String :=
  ((m.groups.get? target).bind (·.get? source)).bind (·.get? field)

/-- Whether a mapping states an equality. -/
def States (m : JoinMapping) (e : Equality) : Prop := m.partner? e.2.1 e.1.1 e.1.2 = some e.2.2

theorem partner?_bind (m : JoinMapping) (target source f g t s field : String) :
    (m.bind target source f g).partner? t s field =
      if t = target ∧ s = source ∧ field = f then some g else m.partner? t s field := by
  unfold partner? bind
  dsimp only
  rw [OrderedMap.get?_insert]
  by_cases ht : t = target
  · subst ht
    rw [if_pos rfl, Option.bind_some, OrderedMap.get?_insert]
    by_cases hs : s = source
    · subst hs
      rw [if_pos rfl, Option.bind_some, OrderedMap.get?_insert]
      by_cases hf : field = f
      · simp [hf]
      · simp only [hf, and_false, if_false]
        cases m.groups.get? t with
        | none => rfl
        | some group => cases hg : group.get? s <;> simp [hg]
    · simp only [hs, false_and, and_false, if_false]
      cases m.groups.get? t with
      | none => rfl
      | some group => rfl
  · simp [ht]

end JoinMapping

namespace FieldPairs

/-- The entity in the middle. -/
def pivot? : FieldPairs → Option String
  | .direct _ => none
  | .throughPivot pivot _ _ => some pivot

/-- The equalities that field pairs state between a source and a target. -/
def equalities (source target : String) : FieldPairs → List Equality
  | .direct pairs => pairs.map fun p => ((source, p.1), (target, p.2))
  | .throughPivot pivot toPivot toTarget =>
    toPivot.map (fun p => ((source, p.1), (pivot, p.2))) ++
      toTarget.map fun p => ((pivot, p.1), (target, p.2))

/-- Field pairs from the other end. -/
def converse : FieldPairs → FieldPairs
  | .direct pairs => .direct (pairs.map Prod.swap)
  | .throughPivot pivot toPivot toTarget =>
    .throughPivot pivot (toTarget.map Prod.swap) (toPivot.map Prod.swap)

theorem pivot?_converse (p : FieldPairs) : p.converse.pivot? = p.pivot? := by cases p <;> rfl

theorem mem_converse (p : FieldPairs) (source target : String) (e : Equality) :
    e ∈ p.converse.equalities target source ↔ e.swap ∈ p.equalities source target := by
  have hside : ∀ (a b : String) (pairs : List (String × String)),
      (e ∈ (pairs.map Prod.swap).map fun p => ((b, p.1), (a, p.2))) ↔
        e.swap ∈ pairs.map fun p => ((a, p.1), (b, p.2)) := by
    intro a b pairs
    simp only [List.mem_map, List.map_map, Function.comp_apply]
    constructor
    · rintro ⟨q, hq, rfl⟩; exact ⟨q, hq, rfl⟩
    · rintro ⟨q, hq, he⟩
      refine ⟨q, hq, ?_⟩
      rw [← Prod.swap_swap e, ← he]
      rfl
  cases p with
  | direct pairs => exact hside source target pairs
  | throughPivot pivot toPivot toTarget =>
    unfold converse equalities
    rw [List.mem_append, List.mem_append, hside, hside, or_comm]

end FieldPairs

/-- Equalities in which every field has one partner for each entity that it is matched with. -/
def Unambiguous (es : List Equality) : Prop :=
  ∀ e ∈ es, ∀ e' ∈ es, e.1.1 = e'.1.1 → e.2.1 = e'.2.1 → (e.1.2 = e'.1.2 ↔ e.2.2 = e'.2.2)

/-- The mapping of equalities bound one after the other. -/
def bindAll (m : JoinMapping) (es : List Equality) : JoinMapping :=
  es.foldl (fun m e => m.bind e.2.1 e.1.1 e.1.2 e.2.2) m

theorem states_bind (m : JoinMapping) (a b : Equality) :
    (m.bind a.2.1 a.1.1 a.1.2 a.2.2).States b ↔
      if a.1 = b.1 ∧ a.2.1 = b.2.1 then a.2.2 = b.2.2 else m.States b := by
  obtain ⟨⟨s, f⟩, ⟨t, g⟩⟩ := a
  obtain ⟨⟨s', f'⟩, ⟨t', g'⟩⟩ := b
  unfold JoinMapping.States
  rw [JoinMapping.partner?_bind]
  by_cases h : t' = t ∧ s' = s ∧ f' = f
  · obtain ⟨rfl, rfl, rfl⟩ := h
    simp
  · have h' : ¬ ((s, f) = (s', f') ∧ t = t') := by
      rintro ⟨hsf, rfl⟩
      cases hsf
      exact h ⟨rfl, rfl, rfl⟩
    rw [if_neg h, if_neg h']

/-- Equalities that agree with each other and with what a mapping states are stated besides. -/
theorem states_bindAll {es : List Equality} {m : JoinMapping} {e : Equality}
    (hes : ∀ a ∈ es, ∀ b ∈ es, a.1 = b.1 → a.2.1 = b.2.1 → a.2.2 = b.2.2)
    (hm : ∀ a ∈ es, ∀ b, m.States b → a.1 = b.1 → a.2.1 = b.2.1 → a.2.2 = b.2.2) :
    (bindAll m es).States e ↔ e ∈ es ∨ m.States e := by
  induction es generalizing m with
  | nil => simp [bindAll]
  | cons a es ih =>
    have hstep : ∀ b, (m.bind a.2.1 a.1.1 a.1.2 a.2.2).States b ↔ b = a ∨ m.States b := by
      intro b
      rw [states_bind]
      split
      · rename_i hkey
        constructor
        · intro hg
          exact .inl (Prod.ext hkey.1.symm (Prod.ext hkey.2.symm hg.symm))
        · rintro (rfl | hb)
          · rfl
          · exact hm a (List.mem_cons_self ..) b hb hkey.1 hkey.2
      · rename_i hkey
        refine ⟨.inr, ?_⟩
        rintro (rfl | hb)
        · exact (hkey ⟨rfl, rfl⟩).elim
        · exact hb
    show (bindAll (m.bind a.2.1 a.1.1 a.1.2 a.2.2) es).States e ↔ _
    rw [ih, hstep, List.mem_cons, ← or_assoc, or_comm (a := e ∈ es)]
    · intro x hx y hy
      exact hes x (List.mem_cons_of_mem _ hx) y (List.mem_cons_of_mem _ hy)
    · intro x hx b hb h1 h2
      rcases (hstep b).1 hb with rfl | hb
      · exact hes x (List.mem_cons_of_mem _ hx) b (List.mem_cons_self ..) h1 h2
      · exact hm x (List.mem_cons_of_mem _ hx) b hb h1 h2

theorem Catalog.entity_ok {c : Catalog} {name : String} {e : Entity}
    (h : c.entity name = .ok e) : c.find? name = some e := by
  unfold Catalog.entity at h
  split at h
  · rename_i hf; cases h; exact hf
  · cases h

namespace Relation

theorem bindPairs_ok {source target : Entity} {name : String} :
    ∀ {pairs : List (String × String)} {m m' : JoinMapping},
      bindPairs source target name m pairs = .ok m' →
      m' = bindAll m (pairs.map fun p => ((source.name, p.1), (target.name, p.2)))
  | [], m, m', h => by cases h; rfl
  | (f, g) :: rest, m, m', h => by
    unfold bindPairs at h
    obtain ⟨⟨⟩, -, h⟩ := except_bind_ok h
    obtain ⟨⟨⟩, -, h⟩ := except_bind_ok h
    obtain rfl := bindPairs_ok h
    rfl

theorem bindGroup_ok {source target : Entity} {name : String} {pairs : List (String × String)}
    {m m' : JoinMapping} (h : bindGroup source target name m pairs = .ok m') :
    pairs ≠ [] ∧ m' = bindAll m (pairs.map fun p => ((source.name, p.1), (target.name, p.2))) := by
  unfold bindGroup at h
  split at h
  · cases h
  · rename_i hne
    exact ⟨fun hnil => hne (List.isEmpty_iff.2 hnil), bindPairs_ok h⟩

/-- The join mapping of field pairs binds the equalities they state, through the entity of their
pivot. -/
theorem joinMapping_ok {catalog : Catalog} {source target : Entity} {name : String}
    {pairs : FieldPairs} {pivot : Option Entity} {mapping : JoinMapping}
    (h : joinMapping catalog source target name pairs = .ok (pivot, mapping)) :
    pivot = pairs.pivot?.bind catalog.find? ∧ (pivot.isSome = pairs.pivot?.isSome) ∧
      mapping = bindAll {} (pairs.equalities source.name target.name) := by
  cases pairs with
  | direct pairs =>
    unfold joinMapping at h
    obtain ⟨m, hm, h⟩ := except_bind_ok h
    cases h
    exact ⟨rfl, rfl, (bindGroup_ok hm).2⟩
  | throughPivot pivotName toPivot toTarget =>
    unfold joinMapping at h
    obtain ⟨p, hp, h⟩ := except_bind_ok h
    obtain ⟨m, hm, h⟩ := except_bind_ok h
    obtain ⟨m', hm', h⟩ := except_bind_ok h
    cases h
    have hfind := Catalog.entity_ok hp
    refine ⟨?_, rfl, ?_⟩
    · simp [FieldPairs.pivot?, hfind]
    · rw [(bindGroup_ok hm').2, (bindGroup_ok hm).2, FieldPairs.equalities,
        Catalog.name_of_find? hfind, bindAll, bindAll, bindAll, List.foldl_append]

/-- Field pairs in which every field has one partner become just the equalities they state. -/
theorem states_joinMapping {catalog : Catalog} {source target : Entity} {name : String}
    {pairs : FieldPairs} {pivot : Option Entity} {mapping : JoinMapping}
    (h : joinMapping catalog source target name pairs = .ok (pivot, mapping))
    (hone : Unambiguous (pairs.equalities source.name target.name)) (e : Equality) :
    mapping.States e ↔ e ∈ pairs.equalities source.name target.name := by
  rw [(joinMapping_ok h).2.2, states_bindAll]
  · simp [JoinMapping.States, JoinMapping.partner?]
  · intro a ha b hb h1 h2
    exact (hone a ha b hb (by rw [h1]) h2).1 (by rw [h1])
  · intro a ha b hb
    simp [JoinMapping.States, JoinMapping.partner?] at hb

end Relation

end GraphLoad
