/-
What rows ask to be written. A row that holds objects for both ends of a relationship asks that the
one belongs to a collection of the other, or that a property for one object points at it, and the way
back may ask for a second such property. Shown here: a store that was given every one of a list of
writes, in order, has in its collections what was asked for, each object once and where it was first
asked for, and under its other properties the last object asked for.
-/
import GraphLoad.Proofs.Object.Facts
import Mathlib.Data.List.Induction

namespace GraphLoad

/-- That an object is to belong to a collection of another one. -/
structure Gathering where
  object : Nat
  property : String
  target : Nat
deriving DecidableEq

/-- That a property for one object is to hold an object, as a relationship asks. -/
structure Pointing where
  relation : String
  object : Nat
  property : String
  target : Nat
deriving DecidableEq

/-- The objects that are to belong to a collection, in the order they were asked for. -/
def targetsOf (gs : List Gathering) (object : Nat) (property : String) : List Nat :=
  (gs.filter fun g => g.object = object ∧ g.property = property).map Gathering.target

/-- The object that was last asked for under a property. -/
def lastTarget (ps : List Pointing) (object : Nat) (property : String) : Option Nat :=
  ((ps.filter fun w => w.object = object ∧ w.property = property).getLast?).map Pointing.target

/-- The different object that a property holds before a write to it. -/
def replaced? (before : List Pointing) (w : Pointing) : Option Nat :=
  (lastTarget before w.object w.property).filter (· ≠ w.target)

/-- Of writes that come after others, those to properties that held another object, with that
object. -/
def replacements (before : List Pointing) : List Pointing → List (Pointing × Nat)
  | [] => []
  | w :: rest =>
    ((replaced? before w).map fun previous => (w, previous)).toList ++
      replacements (before ++ [w]) rest

/-- The writes that replace an object, each with the object it replaces. -/
def overwrites (ps : List Pointing) : List (Pointing × Nat) := replacements [] ps

/-- Whether two writes ask for different objects under one property. -/
def Disagree (ps : List Pointing) : Prop :=
  ∃ v ∈ ps, ∃ w ∈ ps, v.object = w.object ∧ v.property = w.property ∧ v.target ≠ w.target

instance (ps : List Pointing) : Decidable (Disagree ps) :=
  inferInstanceAs (Decidable (∃ v ∈ ps, ∃ w ∈ ps, _))

section
variable {gs : List Gathering} {ps qs : List Pointing} {g : Gathering} {v w : Pointing} {i : Nat}
  {p : String}

/-! ## One more write -/

theorem targetsOf_snoc (gs : List Gathering) (g : Gathering) (i : Nat) (p : String) :
    targetsOf (gs ++ [g]) i p =
      if i = g.object ∧ p = g.property then targetsOf gs i p ++ [g.target] else targetsOf gs i p := by
  unfold targetsOf
  rw [List.filter_append, List.map_append]
  by_cases h : i = g.object ∧ p = g.property
  · simp [h]
  · have h' : ¬ (g.object = i ∧ g.property = p) := fun hg => h ⟨hg.1.symm, hg.2.symm⟩
    rw [if_neg h, List.filter_singleton]
    simp [h']

theorem lastTarget_snoc (ps : List Pointing) (w : Pointing) (i : Nat) (p : String) :
    lastTarget (ps ++ [w]) i p =
      if i = w.object ∧ p = w.property then some w.target else lastTarget ps i p := by
  unfold lastTarget
  rw [List.filter_append]
  by_cases h : i = w.object ∧ p = w.property
  · simp [h]
  · have h' : ¬ (w.object = i ∧ w.property = p) := fun hw => h ⟨hw.1.symm, hw.2.symm⟩
    rw [if_neg h, List.filter_singleton]
    simp [h']

theorem mem_of_lastTarget {t : Nat} (h : lastTarget ps i p = some t) :
    ∃ w ∈ ps, w.object = i ∧ w.property = p ∧ w.target = t := by
  obtain ⟨w, hw, rfl⟩ := Option.map_eq_some_iff.1 h
  have hmem := List.mem_of_getLast? hw
  rw [List.mem_filter, decide_eq_true_eq] at hmem
  exact ⟨w, hmem.1, hmem.2.1, hmem.2.2, rfl⟩

/-- Nothing was last asked for exactly when nothing was asked for. -/
theorem lastTarget_eq_none : lastTarget ps i p = none ↔ ∀ w ∈ ps, w.object = i → w.property ≠ p := by
  simp [lastTarget]

theorem replaced?_eq_some {previous : Nat} :
    replaced? ps w = some previous ↔
      lastTarget ps w.object w.property = some previous ∧ previous ≠ w.target := by
  simp [replaced?]

theorem replaced?_eq_none :
    replaced? ps w = none ↔ ∀ t, lastTarget ps w.object w.property = some t → t = w.target := by
  simp [replaced?]

/-! ## Replaced objects -/

theorem replacements_append (before ps qs : List Pointing) :
    replacements before (ps ++ qs) = replacements before ps ++ replacements (before ++ ps) qs := by
  induction ps generalizing before with
  | nil => simp [replacements]
  | cons w ps ih =>
    rw [List.cons_append, replacements, ih, replacements, List.append_assoc, List.append_assoc,
      List.singleton_append]

theorem overwrites_snoc (ps : List Pointing) (w : Pointing) :
    overwrites (ps ++ [w]) =
      overwrites ps ++ ((replaced? ps w).map fun previous => (w, previous)).toList := by
  unfold overwrites
  rw [replacements_append, List.nil_append, replacements, replacements, List.append_nil]

/-- What is replaced was asked for before. -/
theorem mem_overwrites {c : Pointing × Nat} (h : c ∈ overwrites ps) :
    c.1 ∈ ps ∧ ∃ v ∈ ps, v.object = c.1.object ∧ v.property = c.1.property ∧ v.target = c.2 ∧
      v.target ≠ c.1.target := by
  induction ps using List.reverseRecOn with
  | nil => cases h
  | append_singleton ps w ih =>
    rw [overwrites_snoc, List.mem_append] at h
    rcases h with h | h
    · obtain ⟨hc, v, hv, hsame⟩ := ih h
      exact ⟨List.mem_append_left _ hc, v, List.mem_append_left _ hv, hsame⟩
    · obtain ⟨previous, hprevious, rfl⟩ := Option.map_eq_some_iff.1 (Option.mem_toList.1 h)
      obtain ⟨hlast, hne⟩ := replaced?_eq_some.1 hprevious
      obtain ⟨v, hv, ho, hp, rfl⟩ := mem_of_lastTarget hlast
      exact ⟨by simp, v, List.mem_append_left _ hv, ho, hp, rfl, hne⟩

/-- Where nothing was replaced, every write is the last one to its property. -/
theorem lastTarget_of_overwrites (h : overwrites ps = []) (hw : w ∈ ps) :
    lastTarget ps w.object w.property = some w.target := by
  induction ps using List.reverseRecOn with
  | nil => cases hw
  | append_singleton ps v ih =>
    rw [overwrites_snoc, List.append_eq_nil_iff] at h
    obtain ⟨hbefore, hv⟩ := h
    have hnone : replaced? ps v = none := by simpa using hv
    rw [lastTarget_snoc]
    split
    · rename_i hsame
      rcases List.mem_append.1 hw with hw | hw
      · -- the last write asks for what was there
        have hlast := ih hbefore hw
        rw [hsame.1, hsame.2] at hlast
        rw [replaced?_eq_none.1 hnone _ hlast]
      · rw [List.mem_singleton.1 hw]
    · rename_i hother
      rcases List.mem_append.1 hw with hw | hw
      · exact ih hbefore hw
      · rw [List.mem_singleton.1 hw] at hother
        exact (hother ⟨rfl, rfl⟩).elim

/-- Something is replaced, in whatever order writes come, exactly if two of them disagree. -/
theorem overwrites_ne_nil : overwrites ps ≠ [] ↔ Disagree ps := by
  constructor
  · intro h
    obtain ⟨c, hc⟩ := List.exists_mem_of_ne_nil _ h
    obtain ⟨hmem, v, hv, ho, hp, -, hne⟩ := mem_overwrites hc
    exact ⟨v, hv, c.1, hmem, ho, hp, hne⟩
  · rintro ⟨v, hv, w, hw, ho, hp, hne⟩ h
    apply hne
    have hlast := lastTarget_of_overwrites h hv
    rw [ho, hp, lastTarget_of_overwrites h hw] at hlast
    exact (Option.some.inj hlast).symm

end

/-! ## A store that was written -/

namespace ObjectStore

/-- An object of an entity. -/
def IsOf (s : ObjectStore) (entity : String) (i : Nat) : Prop :=
  ∃ a, s.get? i = some a ∧ a.entity = entity

/-- The text of a conflict. -/
def warning (s : ObjectStore) (c : Pointing × Nat) : LinkWarning :=
  ⟨c.1.relation, s.textOf c.1.object, c.1.property, s.textOf c.2⟩

/-- A store that was given some writes and no others. Collections belong to the properties of
`collections`, and other properties to those of `singles`; of one that belongs to both nothing is
said. -/
structure Wrote (singles collections : List (String × String)) (gs : List Gathering)
    (ps : List Pointing) (s : ObjectStore) : Prop where
  bounded : ∀ g ∈ gs, g.object < s.size
  owned : ∀ w ∈ ps, (∃ e, s.IsOf e w.object ∧ (e, w.property) ∈ singles) ∧ w.target < s.size
  gathered : ∀ i a p, s.get? i = some a → (a.entity, p) ∉ singles →
    a.many p = (targetsOf gs i p).eraseDups
  pointed : ∀ i a p, s.get? i = some a → (a.entity, p) ∉ collections →
    a.related? p = (lastTarget ps i p).map Related.one

variable {singles collections : List (String × String)} {gs : List Gathering} {ps : List Pointing}
  {s s' : ObjectStore} {e : String} {i t : Nat} {p : String}

theorem IsOf.lt (h : s.IsOf e i) : i < s.size := by
  obtain ⟨a, ha, -⟩ := h
  exact get?_lt ha

theorem IsOf.extends (h : s.IsOf e i) (hext : s.Extends s') : s'.IsOf e i := by
  obtain ⟨a, ha, rfl⟩ := h
  obtain ⟨b, hb, he, -⟩ := hext i a ha
  exact ⟨b, hb, he⟩

theorem IsOf.unique {e' : String} (h : s.IsOf e i) (h' : s.IsOf e' i) : e = e' := by
  obtain ⟨a, ha, rfl⟩ := h
  obtain ⟨b, hb, rfl⟩ := h'
  rw [ha] at hb
  cases hb
  rfl

theorem extends_related (s : ObjectStore) (isMany : Bool) (i : Nat) (p : String)
    (target : Option Nat) : s.Extends (s.related isMany i p target) :=
  extends_of_identity (identity?_related s isMany i p target)

theorem size_le_of_extends (h : s.Extends s') : s.size ≤ s'.size := by
  by_contra hlt
  have := h.lt (Nat.lt_of_not_le hlt)
  omega

theorem textOf_extends (hext : s.Extends s') (hi : i < s.size) : s'.textOf i = s.textOf i := by
  obtain ⟨a, ha⟩ := get?_of_lt hi
  obtain ⟨b, hb, he, hk⟩ := hext i a ha
  unfold textOf
  rw [ha, hb, Option.map_some, Option.map_some, Record.text, Record.text, he, hk]

/-- What was warned of reads the same in a store that has grown. -/
theorem Wrote.map_warning (h : s.Wrote singles collections gs ps) (hext : s.Extends s') :
    (overwrites ps).map s'.warning = (overwrites ps).map s.warning := by
  refine List.map_congr_left fun c hc => ?_
  obtain ⟨hmem, v, hv, -, -, hprevious, -⟩ := mem_overwrites hc
  obtain ⟨⟨e, hobject, -⟩, -⟩ := h.owned c.1 hmem
  have hlt : c.2 < s.size := hprevious ▸ (h.owned v hv).2
  unfold warning
  rw [textOf_extends hext hobject.lt, textOf_extends hext hlt]

theorem wrote_empty : ObjectStore.empty.Wrote singles collections [] [] := by
  constructor
  case bounded => exact fun g hg => nomatch hg
  case owned => exact fun w hw => nomatch hw
  case gathered => exact fun i a p ha => nomatch ha
  case pointed => exact fun i a p ha => nomatch ha

/-- A store stays as it was written while it grows by objects to which nothing is related. -/
theorem Wrote.grow (h : s.Wrote singles collections gs ps) (hext : s.Extends s')
    (hrel : ∀ i p, s'.related? i p = s.related? i p) : s'.Wrote singles collections gs ps := by
  -- an object was there with the same properties, or is new and has none
  have hrecord : ∀ i b, s'.get? i = some b →
      (∃ a, s.get? i = some a ∧ a.entity = b.entity ∧ ∀ p, b.related? p = a.related? p) ∨
        (s.size ≤ i ∧ ∀ p, b.related? p = none) := by
    intro i b hb
    have hb' : ∀ p, b.related? p = s.related? i p := by
      intro p
      rw [← hrel, related?, hb, Option.bind_some]
    by_cases hi : i < s.size
    · left
      obtain ⟨a, ha⟩ := get?_of_lt hi
      obtain ⟨c, hc, he, -⟩ := hext i a ha
      rw [hb] at hc
      cases hc
      refine ⟨a, ha, he.symm, fun p => ?_⟩
      rw [hb', related?, ha, Option.bind_some]
    · right
      refine ⟨Nat.le_of_not_lt hi, fun p => ?_⟩
      rw [hb', related?, get?, List.getElem?_eq_none (Nat.le_of_not_lt hi), Option.bind_none]
  constructor
  case bounded => exact fun g hg => Nat.lt_of_lt_of_le (h.bounded g hg) (size_le_of_extends hext)
  case owned =>
    intro w hw
    obtain ⟨⟨e, hobject, hmem⟩, htarget⟩ := h.owned w hw
    exact ⟨⟨e, hobject.extends hext, hmem⟩, hext.lt htarget⟩
  case gathered =>
    intro i b p hb hp
    rcases hrecord i b hb with ⟨a, ha, he, hsame⟩ | ⟨hi, hnone⟩
    · rw [Record.many, hsame, ← Record.many]
      exact h.gathered i a p ha (he ▸ hp)
    · have hnew : targetsOf gs i p = [] := by
        rw [targetsOf, List.map_eq_nil_iff, List.filter_eq_nil_iff]
        intro g hg heq
        rw [decide_eq_true_eq] at heq
        have := h.bounded g hg
        omega
      rw [Record.many, hnone, hnew]
      rfl
  case pointed =>
    intro i b p hb hp
    rcases hrecord i b hb with ⟨a, ha, he, hsame⟩ | ⟨hi, hnone⟩
    · rw [hsame]
      exact h.pointed i a p ha (he ▸ hp)
    · have hnew : lastTarget ps i p = none := by
        rw [lastTarget_eq_none]
        rintro w hw rfl
        obtain ⟨⟨e, hobject, -⟩, -⟩ := h.owned w hw
        have := hobject.lt
        omega
      rw [hnone, hnew]
      rfl

/-- The objects of a store of which one property was written, and what it held before. -/
theorem record_of_write {v : Related} {i : Nat} {p : String} (hext : ∀ j, s'.identity? j = s.identity? j)
    (hrel : ∀ j q, s'.related? j q = if j = i ∧ q = p then some v else s.related? j q) {j : Nat}
    {b : Record} (hb : s'.get? j = some b) :
    ∃ a, s.get? j = some a ∧ a.entity = b.entity ∧
      ∀ q, b.related? q = if j = i ∧ q = p then some v else a.related? q := by
  have hident := identity?_eq_some.2 ⟨b, hb, rfl⟩
  rw [hext] at hident
  obtain ⟨a, ha, heq⟩ := identity?_eq_some.1 hident
  refine ⟨a, ha, (Prod.mk.inj heq).1, fun q => ?_⟩
  have hq := hrel j q
  rw [related?, hb, related?, ha] at hq
  exact hq

/-- A collection is written: the store has what was asked for if the collection has. -/
theorem Wrote.collected {gs' : List Gathering} {ts : List Nat}
    (h : s.Wrote singles collections gs ps) (hi : s.IsOf e i) (hp : (e, p) ∈ collections)
    (hident : ∀ j, s'.identity? j = s.identity? j)
    (hrel : ∀ j q, s'.related? j q = if j = i ∧ q = p then some (.many ts) else s.related? j q)
    (hbounded : ∀ g ∈ gs', g.object < s.size)
    (hothers : ∀ j q, ¬ (j = i ∧ q = p) → targetsOf gs' j q = targetsOf gs j q)
    (hts : (e, p) ∉ singles → ts = (targetsOf gs' i p).eraseDups) :
    s'.Wrote singles collections gs' ps := by
  obtain ⟨c, hc, rfl⟩ := hi
  have hext : s.Extends s' := extends_of_identity hident
  have hrecord := fun {j b} => record_of_write (j := j) (b := b) hident hrel
  constructor
  case bounded => exact fun g hg => hext.lt (hbounded g hg)
  case owned =>
    intro w hw
    obtain ⟨⟨e, hobject, hmem⟩, htarget⟩ := h.owned w hw
    exact ⟨⟨e, hobject.extends hext, hmem⟩, hext.lt htarget⟩
  case gathered =>
    intro j b q hb hq
    obtain ⟨a, ha, he, hafter⟩ := hrecord hb
    rw [Record.many, hafter]
    split
    · rename_i hsame
      obtain ⟨rfl, rfl⟩ := hsame
      rw [hc] at ha
      cases ha
      exact hts (he ▸ hq)
    · rename_i hother
      rw [hothers j q hother, ← Record.many]
      exact h.gathered j a q ha (he ▸ hq)
  case pointed =>
    intro j b q hb hq
    obtain ⟨a, ha, he, hafter⟩ := hrecord hb
    -- the property that was written is one of the collections, of which nothing is said here
    rw [hafter, if_neg]
    · exact h.pointed j a q ha (he ▸ hq)
    · rintro ⟨rfl, rfl⟩
      rw [hc] at ha
      cases ha
      exact hq (he ▸ hp)

/-- An object is put into a collection. -/
theorem Wrote.gather (h : s.Wrote singles collections gs ps) (hi : s.IsOf e i)
    (hp : (e, p) ∈ collections) (t : Nat) :
    (s.related true i p (some t)).Wrote singles collections (gs ++ [⟨i, p, t⟩]) ps := by
  have hlt := hi.lt
  obtain ⟨c, hc, rfl⟩ := hi
  refine h.collected ⟨c, hc, rfl⟩ hp (identity?_related s true i p (some t)) (related?_gather hc p t)
    ?bounded ?others ?gathered
  case bounded =>
    intro g hg
    rcases List.mem_append.1 hg with hg | hg
    · exact h.bounded g hg
    · rw [List.mem_singleton.1 hg]
      exact hlt
  case others =>
    intro j q hother
    rw [targetsOf_snoc, if_neg hother]
  case gathered =>
    intro hsingle
    have hafter : targetsOf (gs ++ [⟨i, p, t⟩]) i p = targetsOf gs i p ++ [t] := by
      rw [targetsOf_snoc]
      exact if_pos ⟨rfl, rfl⟩
    rw [hafter, eraseDups_snoc, ← h.gathered i c p hc hsingle]

/-- A collection begins, or stays as it is. -/
theorem Wrote.collect (h : s.Wrote singles collections gs ps) (hi : s.IsOf e i)
    (hp : (e, p) ∈ collections) : (s.initMany i p).Wrote singles collections gs ps := by
  obtain ⟨c, hc, rfl⟩ := hi
  exact h.collected ⟨c, hc, rfl⟩ hp (identity?_related s true i p none) (related?_initMany hc p)
    h.bounded (fun _ _ _ => rfl) (h.gathered i c p hc)

/-- A property for one object is given an object. -/
theorem Wrote.point (h : s.Wrote singles collections gs ps) (hi : s.IsOf e i)
    (hp : (e, p) ∈ singles) (ht : t < s.size) (relation : String) :
    (s.related false i p (some t)).Wrote singles collections gs (ps ++ [⟨relation, i, p, t⟩]) := by
  have hext := extends_related s false i p (some t)
  have hrecord := fun {j b} => record_of_write (j := j) (b := b)
    (identity?_related s false i p (some t)) (related?_point hi.lt p t)
  constructor
  case bounded => exact fun g hg => hext.lt (h.bounded g hg)
  case owned =>
    intro w hw
    rcases List.mem_append.1 hw with hw | hw
    · obtain ⟨⟨e, hobject, hmem⟩, htarget⟩ := h.owned w hw
      exact ⟨⟨e, hobject.extends hext, hmem⟩, hext.lt htarget⟩
    · rw [List.mem_singleton.1 hw]
      exact ⟨⟨e, hi.extends hext, hp⟩, hext.lt ht⟩
  case gathered =>
    intro j b q hb hq
    obtain ⟨a, ha, he, hrel⟩ := hrecord hb
    rw [Record.many, hrel, if_neg]
    · exact h.gathered j a q ha (he ▸ hq)
    · rintro ⟨rfl, rfl⟩
      rw [hi.unique ⟨a, ha, he⟩] at hp
      exact hq hp
  case pointed =>
    intro j b q hb hq
    obtain ⟨a, ha, he, hrel⟩ := hrecord hb
    rw [hrel, lastTarget_snoc]
    split
    · rfl
    · exact h.pointed j a q ha (he ▸ hq)

end ObjectStore

end GraphLoad
