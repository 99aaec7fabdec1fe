/-
Linking as a list of writes. A row with objects for both ends of a relationship asks for a link, and
linking rows writes what their links ask for, in order, and nothing else. It fails only under the
strict policy, and then two of the writes asked for disagree.
-/
import GraphLoad.Proofs.Object.Writes

namespace GraphLoad

/-- The objects of a row for two aliases, if it has both. -/
def Row.ends? (row : Row) (sourceAlias targetAlias : String) : Option (Nat × Nat) :=
  match row.object sourceAlias, row.object targetAlias with
  | .ok (some source), .ok (some target) => some (source, target)
  | _, _ => none

theorem Row.ends?_eq_some {row : Row} {a b : String} {x : Nat × Nat} :
    row.ends? a b = some x ↔
      row.object a = .ok (some x.1) ∧ row.object b = .ok (some x.2) := by
  unfold Row.ends?
  split
  · rename_i source target hsource htarget
    rw [hsource, htarget]
    constructor
    · rintro ⟨⟩
      exact ⟨rfl, rfl⟩
    · rintro ⟨hs, ht⟩
      cases hs
      cases ht
      rfl
  · rename_i hnone
    constructor
    · rintro ⟨⟩
    · rintro ⟨hs, ht⟩
      exact (hnone _ _ hs ht).elim

/-- A row whose slot for an alias holds an object of an entity, or none. -/
def Row.Filled (s : ObjectStore) (aliasName entity : String) (row : Row) : Prop :=
  ∃ o, row.object aliasName = .ok o ∧ ∀ i, o = some i → s.IsOf entity i

theorem Row.Filled.extends {s s' : ObjectStore} {aliasName entity : String} {row : Row}
    (h : row.Filled s aliasName entity) (hext : s.Extends s') : row.Filled s' aliasName entity := by
  obtain ⟨o, ho, hof⟩ := h
  exact ⟨o, ho, fun i hi => (hof i hi).extends hext⟩

/-- What a row asks for: that an object is linked to another along a relationship, and back by the
property `back`. -/
structure Link where
  relation : Relation
  back : Option String
  source : Nat
  target : Nat

namespace Link

/-- The collections that a link adds to. -/
def gatherings (l : Link) : List Gathering :=
  if l.relation.isMany then [⟨l.source, l.relation.property, l.target⟩] else []

/-- The properties for one object that a link writes, forward before back. -/
def pointings (l : Link) : List Pointing :=
  (if l.relation.isMany then []
    else [⟨l.relation.name, l.source, l.relation.property, l.target⟩]) ++
    l.back.toList.map fun back => ⟨l.relation.name, l.target, back, l.source⟩

end Link

/-- The links that rows ask for, in row order. -/
def Relation.links (r : Relation) (sourceAlias targetAlias : String) (back : Option String)
    (rows : List Row) : List Link :=
  rows.filterMap fun row =>
    (row.ends? sourceAlias targetAlias).map fun (source, target) => ⟨r, back, source, target⟩

/-- Whether the properties that a relationship writes, and the one of its way back, are among given
ones. -/
def Relation.Within (singles collections : List (String × String)) (r : Relation)
    (back : Option String) (target : String) : Prop :=
  (r.source.name, r.property) ∈ (if r.isMany then collections else singles) ∧
    ∀ b, back = some b → (target, b) ∈ singles

/-- A linking in which some writes were made, with the warnings of those that replaced an object.
Nothing was replaced under the strict policy. -/
structure Links.Wrote (singles collections : List (String × String)) (policy : ConflictPolicy)
    (warned : List LinkWarning) (gs : List Gathering) (ps : List Pointing) (l : Links) : Prop where
  store : l.store.Wrote singles collections gs ps
  warnings : (∀ p ∈ singles, p ∉ collections) →
    warned ++ l.warnings = (overwrites ps).map l.store.warning
  strict : (∀ p ∈ singles, p ∉ collections) → policy = .error → overwrites ps = []

/-- An error that tells of two writes that disagree. -/
def LoadError.TellsOf (singles collections : List (String × String)) (ps : List Pointing)
    (e : LoadError) : Prop :=
  e.code = .conflictingLink ∧ ((∀ p ∈ singles, p ∉ collections) → Disagree ps)

theorem Disagree.append {ps : List Pointing} (h : Disagree ps) (qs : List Pointing) :
    Disagree (ps ++ qs) := by
  obtain ⟨v, hv, w, hw, hsame⟩ := h
  exact ⟨v, List.mem_append_left _ hv, w, List.mem_append_left _ hw, hsame⟩

theorem LoadError.TellsOf.append {singles collections : List (String × String)} {ps : List Pointing}
    {e : LoadError} (h : e.TellsOf singles collections ps) (qs : List Pointing) :
    e.TellsOf singles collections (ps ++ qs) :=
  ⟨h.1, fun hparted => (h.2 hparted).append qs⟩

namespace Relation

variable {singles collections : List (String × String)} {policy : ConflictPolicy}
  {warned : List LinkWarning} {gs : List Gathering} {ps : List Pointing} {r : Relation} {l : Links}
  {e e' p : String} {i t : Nat}

/-! ## One property -/

/-- How a write to a property for one object ends: the object is there, and if it replaced another one
that is warned of, or is the error. -/
def Points (r : Relation) (policy : ConflictPolicy) (i : Nat) (p : String) (t : Nat) (l : Links) :
    EStateM.Result LoadError Links Unit → Prop :=
  Ends
    (fun _ l' => l'.store = l.store.related false i p (some t) ∧
      l'.warnings = l.warnings ++ ((l.store.linkOne i p t).1.map fun previous =>
        l'.store.warning (⟨r.name, i, p, t⟩, previous)).toList ∧
      (policy = .error → (l.store.linkOne i p t).1 = none))
    (fun e _ => e.code = .conflictingLink ∧ (l.store.linkOne i p t).1 ≠ none)

/-- The end of a write, where the object it replaces is dealt with. -/
theorem points_report {previous : Option Nat} {rest : Linking Unit}
    (hprevious : (l.store.linkOne i p t).1 = previous)
    (hrest : ∀ l₁, Ends (fun _ l₂ => l₂.store = l₁.store ∧ l₂.warnings = l₁.warnings)
      (fun _ _ => False) (rest l₁)) :
    r.Points policy i p t l
      ((match previous with
        | some previous => r.reportConflict policy i previous p
        | none => rest) { l with store := l.store.related false i p (some t) }) := by
  unfold Points
  rw [hprevious]
  cases previous with
  | none =>
    refine (hrest _).imp ?_ fun _ _ h => h.elim
    rintro _ l₂ ⟨hstore, hwarnings⟩
    exact ⟨hstore, by rw [hwarnings]; simp, fun _ => rfl⟩
  | some previous =>
    cases policy with
    | error => exact ⟨rfl, by simp⟩
    | warn => exact ⟨rfl, rfl, fun h => nomatch h⟩

theorem linkForward_points (hmany : r.isMany = false) :
    r.Points policy i r.property t l (r.linkForward policy i (some t) l) := by
  have hcode : r.linkForward policy i (some t) l =
      (match (l.store.linkOne i r.property t).1 with
        | some previous => r.reportConflict policy i previous r.property
        | none => modify Links.count) { l with store := l.store.related false i r.property (some t) } := by
    unfold linkForward
    rw [hmany]
    rfl
  rw [hcode]
  exact points_report rfl fun l₁ => ⟨rfl, rfl⟩

theorem linkBack_points : r.Points policy t p i l (r.linkBack policy p i t l) := by
  have hcode : r.linkBack policy p i t l =
      (match (l.store.linkOne t p i).1 with
        | some previous => r.reportConflict policy t previous p
        | none => pure ()) { l with store := l.store.related false t p (some i) } := rfl
  rw [hcode]
  exact points_report rfl fun l₁ => ⟨rfl, rfl⟩

/-- What a write replaces is the different object that was last asked for. -/
theorem linkOne_replaced (h : l.store.Wrote singles collections gs ps) (hi : l.store.IsOf e i)
    (hp : (e, p) ∉ collections) (name : String) :
    (l.store.linkOne i p t).1 = replaced? ps ⟨name, i, p, t⟩ := by
  obtain ⟨a, ha, rfl⟩ := hi
  have hrelated := h.pointed i a p ha hp
  unfold ObjectStore.linkOne replaced?
  rw [ha]
  show (a.one p).filter _ = _
  rw [Record.one, hrelated]
  cases lastTarget ps i p <;> rfl

/-- A write to a property for one object is one more write. -/
theorem Points.wrote (h : l.Wrote singles collections policy warned gs ps)
    (hi : l.store.IsOf e i) (hp : (e, p) ∈ singles) (ht : t < l.store.size)
    {result : EStateM.Result LoadError Links Unit} (hresult : r.Points policy i p t l result) :
    Ends
      (fun _ l' => l'.Wrote singles collections policy warned gs (ps ++ [⟨r.name, i, p, t⟩]) ∧
        l.store.Extends l'.store)
      (fun e _ => e.TellsOf singles collections (ps ++ [⟨r.name, i, p, t⟩])) result := by
  have hreplaced : (∀ p ∈ singles, p ∉ collections) →
      (l.store.linkOne i p t).1 = replaced? ps ⟨r.name, i, p, t⟩ :=
    fun hparted => linkOne_replaced h.store hi (hparted _ hp) r.name
  refine Ends.imp hresult ?_ ?_
  · rintro ⟨⟩ l' ⟨hstore, hwarnings, hstrict⟩
    have hext : l.store.Extends l'.store := by
      rw [hstore]
      exact ObjectStore.extends_related l.store false i p (some t)
    refine ⟨⟨?_, fun hparted => ?_, fun hparted he => ?_⟩, hext⟩
    · rw [hstore]
      exact h.store.point hi hp ht r.name
    · -- the texts of earlier warnings are read in the store as it is now
      rw [hwarnings, ← List.append_assoc, h.warnings hparted, ← h.store.map_warning hext,
        hreplaced hparted, overwrites_snoc, List.map_append]
      congr 1
      cases replaced? ps ⟨r.name, i, p, t⟩ <;> rfl
    · rw [overwrites_snoc, h.strict hparted he, ← hreplaced hparted, hstrict he]
      rfl
  · rintro err _ ⟨hcode, hlost⟩
    refine ⟨hcode, fun hparted => ?_⟩
    rw [hreplaced hparted, Option.ne_none_iff_exists'] at hlost
    obtain ⟨previous, hprevious⟩ := hlost
    rw [← overwrites_ne_nil, overwrites_snoc, hprevious]
    simp

/-! ## One row -/

/-- A step that gives no warning and replaces nothing. -/
theorem wrote_silent {l' : Links} {gs' : List Gathering}
    (h : l.Wrote singles collections policy warned gs ps)
    (hstore : l'.store.Wrote singles collections gs' ps) (hext : l.store.Extends l'.store)
    (hwarnings : l'.warnings = l.warnings) :
    l'.Wrote singles collections policy warned gs' ps := by
  refine ⟨hstore, fun hparted => ?_, h.strict⟩
  rw [hwarnings, h.warnings hparted, h.store.map_warning hext]

theorem linkForward_none (h : l.Wrote singles collections policy warned gs ps)
    (hi : l.store.IsOf r.source.name i)
    (hp : (r.source.name, r.property) ∈ if r.isMany then collections else singles) :
    Ends (fun _ l' => l'.Wrote singles collections policy warned gs ps ∧ l.store.Extends l'.store)
      (fun _ _ => False) (r.linkForward policy i none l) := by
  unfold linkForward
  cases hmany : r.isMany with
  | true =>
    rw [if_pos hmany] at hp
    have hext := ObjectStore.extends_related l.store true i r.property none
    exact ⟨wrote_silent h (h.store.collect hi hp) hext rfl, hext⟩
  | false => exact ⟨h, .refl _⟩

theorem linkForward_some (h : l.Wrote singles collections policy warned gs ps)
    (hi : l.store.IsOf r.source.name i) (ht : t < l.store.size)
    (hp : (r.source.name, r.property) ∈ if r.isMany then collections else singles) :
    Ends
      (fun _ l' => l'.Wrote singles collections policy warned
          (gs ++ (Link.mk r none i t).gatherings) (ps ++ (Link.mk r none i t).pointings) ∧
        l.store.Extends l'.store)
      (fun e _ => e.TellsOf singles collections (ps ++ (Link.mk r none i t).pointings))
      (r.linkForward policy i (some t) l) := by
  cases hmany : r.isMany with
  | true =>
    rw [if_pos hmany] at hp
    have hcode : r.linkForward policy i (some t) l =
        .ok ⟨⟩ (if (l.store.linkMany i r.property t).1
          then Links.count { l with store := l.store.related true i r.property (some t) }
          else { l with store := l.store.related true i r.property (some t) }) := by
      unfold linkForward
      rw [hmany]
      rfl
    rw [hcode]
    have hext := ObjectStore.extends_related l.store true i r.property (some t)
    have hgather := h.store.gather hi hp t
    simp only [Link.gatherings, Link.pointings, hmany, if_true, Option.toList_none, List.map_nil,
      List.append_nil]
    split
    · exact ⟨wrote_silent h hgather hext rfl, hext⟩
    · exact ⟨wrote_silent h hgather hext rfl, hext⟩
  | false =>
    have hp' : (r.source.name, r.property) ∈ singles := by simpa [hmany] using hp
    simpa [Link.gatherings, Link.pointings, hmany] using
      Points.wrote h hi hp' ht (linkForward_points hmany)

/-- A row without one of the objects links nothing. -/
theorem linkRow_unlinked {sourceAlias targetAlias : String} {back : Option String} {row : Row}
    {source target : Option Nat} (h : l.Wrote singles collections policy warned gs ps)
    (hs : row.object sourceAlias = .ok source) (ht : row.object targetAlias = .ok target)
    (hsource : ∀ i, source = some i → l.store.IsOf r.source.name i)
    (hmissing : source = none ∨ target = none)
    (hp : (r.source.name, r.property) ∈ if r.isMany then collections else singles) :
    Ends (fun _ l' => l'.Wrote singles collections policy warned gs ps ∧ l.store.Extends l'.store)
      (fun _ _ => False) (r.linkRow sourceAlias targetAlias back policy row l) := by
  cases source with
  | none =>
    unfold linkRow
    rw [hs]
    exact ⟨h, .refl _⟩
  | some i =>
    obtain rfl : target = none := by simpa using hmissing
    have hcode : r.linkRow sourceAlias targetAlias back policy row l =
        (r.linkForward policy i none >>= fun _ => pure ()) l := by
      unfold linkRow
      rw [hs, ht]
      cases back <;> rfl
    rw [hcode]
    -- a source without a target may still begin its collection
    exact Ends.bind (linkForward_none h (hsource i rfl) hp) fun _ l₁ h₁ => h₁

/-- A row with both objects links them, and back. -/
theorem linkRow_linked {sourceAlias targetAlias target : String} {back : Option String} {row : Row}
    (h : l.Wrote singles collections policy warned gs ps)
    (hs : row.object sourceAlias = .ok (some i)) (ht : row.object targetAlias = .ok (some t))
    (hi : l.store.IsOf r.source.name i) (hj : l.store.IsOf target t)
    (hwithin : r.Within singles collections back target) :
    Ends
      (fun _ l' => l'.Wrote singles collections policy warned
          (gs ++ (Link.mk r back i t).gatherings) (ps ++ (Link.mk r back i t).pointings) ∧
        l.store.Extends l'.store)
      (fun e _ => e.TellsOf singles collections (ps ++ (Link.mk r back i t).pointings))
      (r.linkRow sourceAlias targetAlias back policy row l) := by
  have hforward := linkForward_some h hi hj.lt hwithin.1
  cases back with
  | none =>
    have hcode : r.linkRow sourceAlias targetAlias none policy row l =
        (r.linkForward policy i (some t) >>= fun _ => pure ()) l := by
      unfold linkRow
      rw [hs, ht]
      rfl
    rw [hcode]
    exact Ends.bind hforward fun _ l₁ h₁ => h₁
  | some b =>
    have hcode : r.linkRow sourceAlias targetAlias (some b) policy row l =
        (r.linkForward policy i (some t) >>= fun _ => r.linkBack policy b i t) l := by
      unfold linkRow
      rw [hs, ht]
      rfl
    rw [hcode]
    have hpointings : (Link.mk r (some b) i t).pointings =
        (Link.mk r none i t).pointings ++ [⟨r.name, t, b, i⟩] := by
      simp [Link.pointings]
    rw [hpointings, ← List.append_assoc]
    refine Ends.bind (hforward.imp (fun _ _ h => h) fun _ _ he => he.append _) ?_
    rintro ⟨⟩ l₁ ⟨h₁, hext⟩
    have hback : r.Points policy t b i l₁ (r.linkBack policy b i t l₁) := linkBack_points
    refine (hback.wrote h₁ (hj.extends hext) (hwithin.2 b rfl) (hext.lt hi.lt)).imp ?_
      fun _ _ he => he
    exact fun _ l₂ h₂ => ⟨h₂.1, hext.trans h₂.2⟩

/-- Linking a row writes what its link asks for, if it has one. -/
theorem linkRow_ends {sourceAlias targetAlias target : String} {back : Option String} {row : Row}
    (h : l.Wrote singles collections policy warned gs ps)
    (hsource : row.Filled l.store sourceAlias r.source.name)
    (htarget : row.Filled l.store targetAlias target)
    (hwithin : r.Within singles collections back target) :
    Ends
      (fun _ l' => l'.Wrote singles collections policy warned
          (gs ++ (r.links sourceAlias targetAlias back [row]).flatMap Link.gatherings)
          (ps ++ (r.links sourceAlias targetAlias back [row]).flatMap Link.pointings) ∧
        l.store.Extends l'.store)
      (fun e _ => e.TellsOf singles collections
        (ps ++ (r.links sourceAlias targetAlias back [row]).flatMap Link.pointings))
      (r.linkRow sourceAlias targetAlias back policy row l) := by
  obtain ⟨source, hs, hsourceOf⟩ := hsource
  obtain ⟨found, ht, htargetOf⟩ := htarget
  by_cases hmissing : source = none ∨ found = none
  · have hlinks : r.links sourceAlias targetAlias back [row] = [] := by
      rcases hmissing with rfl | rfl
      · simp [links, Row.ends?, hs]
      · cases source <;> simp [links, Row.ends?, hs, ht]
    rw [hlinks, List.flatMap_nil, List.flatMap_nil, List.append_nil, List.append_nil]
    exact (linkRow_unlinked h hs ht hsourceOf hmissing hwithin.1).imp (fun _ _ h => h)
      fun _ _ h => h.elim
  · rw [not_or] at hmissing
    obtain ⟨i, rfl⟩ := Option.ne_none_iff_exists'.1 hmissing.1
    obtain ⟨t, rfl⟩ := Option.ne_none_iff_exists'.1 hmissing.2
    have hlinks : r.links sourceAlias targetAlias back [row] = [⟨r, back, i, t⟩] := by
      simp [links, Row.ends?, hs, ht]
    rw [hlinks, List.flatMap_singleton, List.flatMap_singleton]
    exact linkRow_linked h hs ht (hsourceOf i rfl) (htargetOf t rfl) hwithin

/-- Linking rows writes what their links ask for, in row order. -/
theorem link_ends {sourceAlias targetAlias target : String} (reverse : Option Relation)
    {rows : List Row} (h : l.Wrote singles collections policy warned gs ps)
    (hsource : ∀ row ∈ rows, row.Filled l.store sourceAlias r.source.name)
    (htarget : ∀ row ∈ rows, row.Filled l.store targetAlias target)
    (hwithin : r.Within singles collections (backProperty reverse) target) :
    Ends
      (fun _ l' => l'.Wrote singles collections policy warned
          (gs ++ (r.links sourceAlias targetAlias (backProperty reverse) rows).flatMap
            Link.gatherings)
          (ps ++ (r.links sourceAlias targetAlias (backProperty reverse) rows).flatMap
            Link.pointings) ∧
        l.store.Extends l'.store)
      (fun e _ => e.TellsOf singles collections
        (ps ++ (r.links sourceAlias targetAlias (backProperty reverse) rows).flatMap Link.pointings))
      (r.link sourceAlias targetAlias reverse policy rows l) := by
  let links := r.links sourceAlias targetAlias (backProperty reverse)
  refine Ends.imp (forM_ends
    (P := fun pre l' => l'.Wrote singles collections policy warned
      (gs ++ (links pre).flatMap Link.gatherings) (ps ++ (links pre).flatMap Link.pointings) ∧
        l.store.Extends l'.store)
    (E := fun pre e _ => e.TellsOf singles collections (ps ++ (links pre).flatMap Link.pointings))
    ?step ?start) (fun _ _ h => h) ?failed
  case step =>
    rintro pre row post hrows l₁ ⟨h₁, hext⟩
    have hrow : row ∈ rows := hrows ▸ List.mem_append_right _ (List.mem_cons_self ..)
    have hsplit : links (pre ++ [row]) = links pre ++ links [row] := List.filterMap_append
    rw [hsplit, List.flatMap_append, List.flatMap_append, ← List.append_assoc, ← List.append_assoc]
    refine (linkRow_ends h₁ ((hsource row hrow).extends hext) ((htarget row hrow).extends hext)
      hwithin).imp ?_ fun _ _ he => he
    exact fun _ l₂ ⟨h₂, hext'⟩ => ⟨h₂, hext.trans hext'⟩
  case start => simpa [links, Relation.links] using And.intro h (ObjectStore.Extends.refl l.store)
  case failed =>
    rintro e l₁ ⟨pre, post, rfl, he⟩
    have hsplit : links (pre ++ post) = links pre ++ links post := List.filterMap_append
    show e.TellsOf singles collections (ps ++ (links (pre ++ post)).flatMap Link.pointings)
    rw [hsplit, List.flatMap_append, ← List.append_assoc]
    exact he.append _

end Relation

end GraphLoad
