/-
What stays when a store is linked. Links replace what a property holds and never take it away: an
object stays in the store, and a property that was loaded stays loaded. Linking rows along a
relationship to many objects loads its property on the source object of every row.
-/
import GraphLoad.Proofs.Object.Writes
import GraphLoad.Proofs.Object.Linking

namespace GraphLoad

namespace ObjectStore

variable {s s' s'' : ObjectStore} {i : Nat} {p : String}

/-- A store that holds every object of another, with every property that was loaded of it. -/
structure Retains (s s' : ObjectStore) : Prop where
  grows : s.Extends s'
  loaded : ∀ i p, s.related? i p ≠ none → s'.related? i p ≠ none

theorem Retains.refl (s : ObjectStore) : s.Retains s := ⟨.refl s, fun _ _ h => h⟩

theorem Retains.trans (h : s.Retains s') (h' : s'.Retains s'') : s.Retains s'' :=
  ⟨h.grows.trans h'.grows, fun i p hp => h'.loaded i p (h.loaded i p hp)⟩

theorem related?_absent (hi : s.get? i = none) (isMany : Bool) (p : String) (target : Option Nat)
    (j : Nat) (q : String) : (s.related isMany i p target).related? j q = s.related? j q := by
  cases isMany <;> cases target
  case false.none => rfl
  case false.some t =>
    show (s.linkOne i p t).2.related? j q = _
    unfold linkOne
    rw [hi]
  case true.none =>
    show (s.initMany i p).related? j q = _
    unfold initMany
    rw [related?_update]
    split
    · subst j
      rw [related?, hi]
      rfl
    · rfl
  case true.some t =>
    show (s.linkMany i p t).2.related? j q = _
    unfold linkMany
    rw [hi]

/-- Giving a property a target loads nothing off. -/
theorem retains_related (s : ObjectStore) (isMany : Bool) (i : Nat) (p : String)
    (target : Option Nat) : s.Retains (s.related isMany i p target) := by
  refine ⟨extends_related s isMany i p target, fun j q hq => ?_⟩
  cases hi : s.get? i with
  | none => rwa [related?_absent hi]
  | some a =>
    by_cases hnothing : isMany = false ∧ target = none
    · obtain ⟨rfl, rfl⟩ := hnothing
      exact hq
    · obtain ⟨v, hv, -⟩ := related?_related hi isMany p target fun hm ht => hnothing ⟨hm, ht⟩
      rw [hv]
      split
      · exact Option.some_ne_none v
      · exact hq

/-- A collection is loaded once it was given a target, or none. -/
theorem loaded_related (hi : i < s.size) (p : String) (target : Option Nat) :
    (s.related true i p target).related? i p ≠ none := by
  obtain ⟨a, ha⟩ := get?_of_lt hi
  obtain ⟨v, hv, -⟩ := related?_related ha true p target fun h => nomatch h
  rw [hv, if_pos ⟨rfl, rfl⟩]
  exact Option.some_ne_none v

/-- Collections that are begun on some objects are loaded there, and nothing else gets lost. -/
theorem retains_initMany (p : String) (ids : List Nat) :
    ∀ s : ObjectStore, s.Retains (ids.foldl (·.initMany · p) s) ∧
      ∀ i ∈ ids, i < s.size → (ids.foldl (·.initMany · p) s).related? i p ≠ none := by
  induction ids with
  | nil => exact fun s => ⟨.refl s, fun i hi => nomatch hi⟩
  | cons k ids ih =>
    intro s
    have hfirst : s.Retains (s.initMany k p) := retains_related s true k p none
    obtain ⟨hrest, hloaded⟩ := ih (s.initMany k p)
    refine ⟨hfirst.trans hrest, fun i hi hlt => ?_⟩
    rcases List.mem_cons.1 hi with rfl | hi
    · exact hrest.loaded i p (loaded_related hlt p none)
    · exact hloaded i hi (hfirst.grows.lt hlt)

end ObjectStore

/-- A linking in whose store every object of another is, with every property that was loaded of it. -/
def Links.Retains (l l' : Links) : Prop := l.store.Retains l'.store

theorem Links.Retains.refl (l : Links) : l.Retains l := ObjectStore.Retains.refl l.store

theorem Links.Retains.trans {l l' l'' : Links} (h : l.Retains l') (h' : l'.Retains l'') :
    l.Retains l'' := ObjectStore.Retains.trans h h'

namespace Relation

variable {r : Relation} {policy : ConflictPolicy} {l l' : Links} {sourceAlias targetAlias : String}
  {back : Option String} {row : Row} {rows : List Row}

/-- A conflict changes no object, whatever is made of it. -/
theorem reportConflict_retains {object previous : Nat} {property : String} :
    Moves Links.Retains (r.reportConflict policy object previous property) := by
  intro l
  cases policy <;> exact Links.Retains.refl l

theorem linkForward_retains {source : Nat} {target : Option Nat} :
    Moves Links.Retains (r.linkForward policy source target) := by
  intro l
  unfold linkForward
  refine Ends.bind (P := fun l₁ l₂ => l = l₁ ∧ l = l₂) ⟨rfl, rfl⟩ ?_
  rintro _ _ ⟨rfl, rfl⟩
  have hgiven := l.store.retains_related r.isMany source r.property target
  cases hmany : r.isMany <;> rw [hmany] at hgiven <;> cases target
  case true.some target =>
    show l.store.Retains (if _ then _ else _ : Links).store
    rw [apply_ite Links.store]
    exact (ite_self _).symm ▸ hgiven
  case true.none => exact hgiven
  case false.none => exact Links.Retains.refl l
  case false.some target =>
    refine Ends.bind (P := fun _ => l.Retains) hgiven fun _ l₁ h₁ => ?_
    refine Ends.imp (Q := fun _ => l₁.Retains) (E := fun _ => l₁.Retains) ?_ (fun _ _ h => h₁.trans h)
      fun _ _ h => h₁.trans h
    exact reportReplaced_ends (modify Links.count) (fun _ => reportConflict_retains l₁)
      (Links.Retains.refl l₁)

theorem linkBack_retains {back : String} {source target : Nat} :
    Moves Links.Retains (r.linkBack policy back source target) := by
  intro l
  unfold linkBack
  refine Ends.bind (P := fun l₁ l₂ => l = l₁ ∧ l = l₂) ⟨rfl, rfl⟩ ?_
  rintro _ _ ⟨rfl, rfl⟩
  refine Ends.bind (P := fun _ => l.Retains) (l.store.retains_related false target back (some source))
    fun _ l₁ h₁ => ?_
  refine Ends.imp (Q := fun _ => l₁.Retains) (E := fun _ => l₁.Retains) ?_ (fun _ _ h => h₁.trans h)
    fun _ _ h => h₁.trans h
  exact reportReplaced_ends (pure ()) (fun _ => reportConflict_retains l₁)
    (Links.Retains.refl l₁)

theorem linkRow_retains :
    Moves Links.Retains (r.linkRow sourceAlias targetAlias back policy row) := by
  unfold linkRow
  refine Moves.bind .trans (Moves.lift .refl _) fun source => ?_
  split
  · exact Moves.pure .refl _
  · refine Moves.bind .trans (Moves.lift .refl _) fun target => ?_
    refine Moves.bind .trans linkForward_retains fun _ => ?_
    split
    · exact linkBack_retains
    · exact Moves.pure .refl _

/-- Linking keeps the objects and what was loaded of them, also where it fails. -/
theorem link_retains {reverse : Option Relation} :
    Moves Links.Retains (r.link sourceAlias targetAlias reverse policy rows) :=
  Moves.forM .refl .trans fun _ _ => linkRow_retains

/-- The source object of a row that is linked along a relationship to many has its collection. -/
theorem linkRow_collects (h : r.linkRow sourceAlias targetAlias back policy row l = .ok ⟨⟩ l')
    (hmany : r.isMany = true) {i : Nat} (hrow : row.object sourceAlias = .ok (some i))
    (hi : i < l.store.size) : l'.store.related? i r.property ≠ none := by
  rcases linkRow_ok h with ⟨hnone, -⟩ | ⟨source, target, l₁, hsource, -, hforward, hback⟩
  · rw [hrow] at hnone
    cases hnone
  · rw [hrow] at hsource
    cases hsource
    have hfirst : l₁.store.related? i r.property ≠ none := by
      rw [(linkForward_ok hforward).1, hmany]
      exact ObjectStore.loaded_related hi r.property target
    cases back <;> cases target
    case some.some back target =>
      rw [(linkBack_ok hback).1]
      exact (ObjectStore.retains_related ..).loaded i _ hfirst
    all_goals
      cases hback
      exact hfirst

/-- Linking rows leaves a collection for the source of every row. -/
theorem link_collects {reverse : Option Relation}
    (h : r.link sourceAlias targetAlias reverse policy rows l = .ok ⟨⟩ l') (hmany : r.isMany = true) :
    ∀ row ∈ rows, ∀ i, row.object sourceAlias = .ok (some i) → i < l.store.size →
      l'.store.related? i r.property ≠ none := by
  have hbuilds := forM_builds (P := fun done l₁ => l.Retains l₁ ∧
    ∀ row ∈ done, ∀ i, row.object sourceAlias = .ok (some i) → i < l.store.size →
      l₁.store.related? i r.property ≠ none) ?step ⟨.refl _, fun row hrow => nomatch hrow⟩ h
  case step =>
    rintro pre row post - l₁ l₂ ⟨hretains, hdone⟩ hrow
    have hstep := linkRow_retains.ok hrow
    refine ⟨hretains.trans hstep, fun row' hrow' i hobject hi => ?_⟩
    rcases List.mem_append.1 hrow' with hrow' | hrow'
    · exact hstep.loaded i _ (hdone row' hrow' i hobject hi)
    · cases List.mem_singleton.1 hrow'
      exact linkRow_collects hrow hmany hobject (hretains.grows.lt hi)
  exact hbuilds.2

end Relation

end GraphLoad
