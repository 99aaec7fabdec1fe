/-
Linking keeps a store well formed: whatever a row says, links only ever lead from objects of the store
to objects of the store, and no object changes its number, its entity or its key.
-/
import GraphLoad.Proofs.Object.Loading
import GraphLoad.Object.Linking

namespace GraphLoad

namespace ObjectStore

/-- The store after a property that holds a collection, or one object, was given a target. -/
def related (s : ObjectStore) (isMany : Bool) (source : Nat) (property : String) :
    Option Nat → ObjectStore
  | none => if isMany then s.initMany source property else s
  | some target =>
    if isMany then (s.linkMany source property target).2 else (s.linkOne source property target).2

theorem related_ok {s : ObjectStore} (hwf : s.WF) (isMany : Bool) (source : Nat)
    (property : String) {target : Option Nat} (htarget : ∀ t, target = some t → t < s.size) :
    (s.related isMany source property target).WF ∧
      s.Extends (s.related isMany source property target) := by
  cases isMany <;> cases target
  case false.none => exact ⟨hwf, .refl s⟩
  case false.some t => exact linkOne_ok hwf (htarget t rfl) rfl
  case true.none => exact initMany_ok hwf source property
  case true.some t => exact linkMany_ok hwf (htarget t rfl) rfl

end ObjectStore

/-- A row whose object for an alias, if it has one, is in the store. -/
def Row.Valid (s : ObjectStore) (aliasName : String) (row : Row) : Prop :=
  ∀ id, row.object aliasName = .ok (some id) → id < s.size

theorem Row.Valid.extends {s s' : ObjectStore} {aliasName : String} {row : Row}
    (h : row.Valid s aliasName) (hext : s.Extends s') : row.Valid s' aliasName :=
  fun id hid => hext.lt (h id hid)

namespace Relation

variable {r : Relation} {policy : ConflictPolicy} {l l' : Links}

/-! ## What a link does to the store -/

/-- A conflict leaves the store as it is, and can only be passed over with a warning. -/
theorem reportConflict_ok {object previous : Nat} {property : String}
    (h : r.reportConflict policy object previous property l = .ok ⟨⟩ l') :
    l'.store = l.store ∧ policy = .warn := by
  unfold reportConflict at h
  obtain ⟨l₁, l₂, hget, h⟩ := step_bind_ok h
  obtain ⟨rfl, rfl⟩ := step_get_ok hget
  cases policy with
  | error => cases h
  | warn => rw [← step_set_ok h]; exact ⟨rfl, rfl⟩

/-- Giving a property one object leaves it with that object; no other one gets lost in silence. -/
theorem reportReplaced_ok {object : Nat} {previous : Option Nat} {property : String}
    {rest : Linking Unit} (hrest : ∀ l₁ l₂, rest l₁ = .ok ⟨⟩ l₂ → l₂.store = l₁.store)
    (h : (match previous with
      | some previous => r.reportConflict policy object previous property
      | none => rest) l = .ok ⟨⟩ l') :
    l'.store = l.store ∧ (policy = .error → previous = none) := by
  cases previous with
  | none => exact ⟨hrest l l' h, fun _ => rfl⟩
  | some previous =>
    obtain ⟨hstore, hpolicy⟩ := reportConflict_ok h
    refine ⟨hstore, fun he => ?_⟩
    rw [he] at hpolicy
    cases hpolicy

theorem linkForward_ok {source : Nat} {target : Option Nat}
    (h : r.linkForward policy source target l = .ok ⟨⟩ l') :
    l'.store = l.store.related r.isMany source r.property target ∧
      (policy = .error → r.isMany = false → ∀ t, target = some t →
        (l.store.linkOne source r.property t).1 = none) := by
  unfold linkForward at h
  obtain ⟨l₁, l₂, hget, h⟩ := step_bind_ok h
  obtain ⟨rfl, rfl⟩ := step_get_ok hget
  cases hmany : r.isMany with
  | true =>
    rw [hmany] at h
    cases target with
    | none =>
      rw [← step_set_ok h]
      exact ⟨rfl, fun _ h => nomatch h⟩
    | some t =>
      refine ⟨?_, fun _ h => nomatch h⟩
      rw [← step_set_ok h, apply_ite Links.store]
      exact ite_self _
  | false =>
    rw [hmany] at h
    cases target with
    | none =>
      obtain ⟨-, rfl⟩ := step_pure_ok h
      exact ⟨rfl, fun _ _ t ht => nomatch ht⟩
    | some t =>
      obtain ⟨⟨⟩, l₁, hset, h⟩ := step_bind_ok h
      obtain ⟨hstore, hnone⟩ := reportReplaced_ok
        (fun l₁ l₂ hcount => by rw [← step_modify_ok hcount]; rfl) h
      rw [hstore, ← step_set_ok hset]
      refine ⟨rfl, fun he _ u hu => ?_⟩
      cases hu
      exact hnone he

theorem linkBack_ok {back : String} {source target : Nat}
    (h : r.linkBack policy back source target l = .ok ⟨⟩ l') :
    l'.store = l.store.related false target back (some source) ∧
      (policy = .error → (l.store.linkOne target back source).1 = none) := by
  unfold linkBack at h
  obtain ⟨l₁, l₂, hget, h⟩ := step_bind_ok h
  obtain ⟨rfl, rfl⟩ := step_get_ok hget
  obtain ⟨⟨⟩, l₁, hset, h⟩ := step_bind_ok h
  obtain ⟨hstore, hnone⟩ := reportReplaced_ok
    (fun l₁ l₂ hpure => by rw [(step_pure_ok hpure).2]) h
  rw [hstore, ← step_set_ok hset]
  exact ⟨rfl, hnone⟩

/-- What a row does to a store when it is linked: nothing if it has no source object; else its source
is given its target, and its target is pointed back at its source. -/
theorem linkRow_ok {sourceAlias targetAlias : String} {back : Option String} {row : Row}
    (h : r.linkRow sourceAlias targetAlias back policy row l = .ok ⟨⟩ l') :
    (row.object sourceAlias = .ok none ∧ l'.store = l.store) ∨
      ∃ source target l₁, row.object sourceAlias = .ok (some source) ∧
        row.object targetAlias = .ok target ∧
        r.linkForward policy source target l = .ok ⟨⟩ l₁ ∧
        match back, target with
        | some back, some target => r.linkBack policy back source target l₁ = .ok ⟨⟩ l'
        | _, _ => l' = l₁ := by
  unfold linkRow at h
  obtain ⟨source, l₁, hlift, h⟩ := step_bind_ok h
  obtain ⟨hsource, rfl⟩ := step_lift_ok hlift
  cases source with
  | none =>
    obtain ⟨-, rfl⟩ := step_pure_ok h
    exact .inl ⟨hsource, rfl⟩
  | some source =>
    obtain ⟨target, l₂, hlift', h⟩ := step_bind_ok h
    obtain ⟨htarget, rfl⟩ := step_lift_ok hlift'
    obtain ⟨⟨⟩, l₁, hforward, h⟩ := step_bind_ok h
    refine .inr ⟨source, target, l₁, hsource, htarget, hforward, ?_⟩
    cases back <;> cases target
    case some.some => exact h
    all_goals exact (step_pure_ok h).2.symm

/-! ## Errors of a link -/

/-- A replaced object is either reported or there is none. -/
theorem reportReplaced_ends (rest : Linking Unit) {object : Nat} {previous : Option Nat}
    {property : String} {Q : Unit → Links → Prop} {E : LoadError → Links → Prop}
    (hreport : ∀ previous, Ends Q E (r.reportConflict policy object previous property l))
    (hrest : Ends Q E (rest l)) :
    Ends Q E ((match previous with
      | some previous => r.reportConflict policy object previous property
      | none => rest) l) := by
  cases previous with
  | none => exact hrest
  | some previous => exact hreport previous

/-- Giving a property its target fails only as reporting a conflict does. -/
theorem linkForward_errors {E : LoadError → Links → Prop}
    (hreport : ∀ object previous property l,
      Ends (fun _ _ => True) E (r.reportConflict policy object previous property l))
    (source : Nat) (target : Option Nat) (l : Links) :
    Ends (fun _ _ => True) E (r.linkForward policy source target l) := by
  unfold linkForward
  refine Ends.bind (P := fun _ _ => True) trivial fun l₁ l₂ _ => ?_
  cases r.isMany <;> cases target
  case false.some target =>
    refine Ends.bind (P := fun _ _ => True) trivial fun _ l₃ _ => ?_
    exact reportReplaced_ends (modify Links.count) (fun previous => hreport ..) trivial
  all_goals trivial

theorem linkBack_errors {E : LoadError → Links → Prop}
    (hreport : ∀ object previous property l,
      Ends (fun _ _ => True) E (r.reportConflict policy object previous property l))
    (back : String) (source target : Nat) (l : Links) :
    Ends (fun _ _ => True) E (r.linkBack policy back source target l) := by
  unfold linkBack
  refine Ends.bind (P := fun _ _ => True) trivial fun l₁ l₂ _ => ?_
  refine Ends.bind (P := fun _ _ => True) trivial fun _ l₃ _ => ?_
  exact reportReplaced_ends (pure ()) (fun previous => hreport ..) trivial

/-! ## Well-formedness -/

theorem linkRow_wf {sourceAlias targetAlias : String} {back : Option String} {row : Row}
    (hwf : l.store.WF) (hsource : row.Valid l.store sourceAlias)
    (htarget : row.Valid l.store targetAlias)
    (h : r.linkRow sourceAlias targetAlias back policy row l = .ok ⟨⟩ l') :
    l'.store.WF ∧ l.store.Extends l'.store := by
  rcases linkRow_ok h with ⟨-, hl⟩ | ⟨source, target, l₁, hs, ht, hforward, hback⟩
  · rw [hl]; exact ⟨hwf, .refl _⟩
  · obtain ⟨hwf₁, hgrows₁⟩ := ObjectStore.related_ok hwf r.isMany source r.property
      fun t heq => htarget t (heq ▸ ht)
    rw [← (linkForward_ok hforward).1] at hwf₁ hgrows₁
    cases back <;> cases target
    case some.some back target =>
      obtain ⟨hwf₂, hgrows₂⟩ := ObjectStore.related_ok hwf₁ false target back
        (fun t (heq : some source = some t) => by cases heq; exact hgrows₁.lt (hsource source hs))
      rw [← (linkBack_ok hback).1] at hwf₂ hgrows₂
      exact ⟨hwf₂, hgrows₁.trans hgrows₂⟩
    all_goals
      cases hback
      exact ⟨hwf₁, hgrows₁⟩

theorem link_wf {sourceAlias targetAlias : String} {reverse : Option Relation} {rows : List Row}
    (hwf : l.store.WF) (hsource : ∀ row ∈ rows, row.Valid l.store sourceAlias)
    (htarget : ∀ row ∈ rows, row.Valid l.store targetAlias)
    (h : r.link sourceAlias targetAlias reverse policy rows l = .ok ⟨⟩ l') :
    l'.store.WF ∧ l.store.Extends l'.store := by
  refine forM_keeps (P := fun l₁ => l₁.store.WF ∧ l.store.Extends l₁.store)
    (fun row hrow l₁ l₂ hl₁ hrowok => ?_) ⟨hwf, .refl _⟩ h
  obtain ⟨hwf₂, hgrows₂⟩ := linkRow_wf hl₁.1 ((hsource row hrow).extends hl₁.2)
    ((htarget row hrow).extends hl₁.2) hrowok
  exact ⟨hwf₂, hl₁.2.trans hgrows₂⟩

end Relation

end GraphLoad
