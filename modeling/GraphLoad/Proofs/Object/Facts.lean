/-
What a store says of its objects, apart from their numbers: objects are known by their entities and
keys, and their properties by facts, that one is a collection, what belongs to it, and which object a
property for one holds. Loading says nothing new; a link adds its own facts and no others.
-/
import GraphLoad.Proofs.Object.Linking

namespace GraphLoad

/-- What tells an object from all others: its entity and its key. -/
abbrev Identity := String × Key

/-- What may be said of a property of an object. -/
inductive Fact
  | many (x : Identity) (property : String)
  | link (x : Identity) (property : String) (y : Identity)
  | one (x : Identity) (property : String) (y : Identity)

namespace Fact

/-- The object that a fact is about. -/
def subject : Fact → Identity
  | many x _ => x
  | link x _ _ => x
  | one x _ _ => x

/-- The property that a fact is about. -/
def property : Fact → String
  | many _ p => p
  | link _ p _ => p
  | one _ p _ => p

end Fact

/-- What linking an object says: that the property is a collection, and what is its target. -/
inductive Said (isMany : Bool) (x : Identity) (property : String) (target : Option Identity) :
    Fact → Prop
  | many : isMany = true → Said isMany x property target (.many x property)
  | link {y : Identity} : isMany = true → target = some y →
      Said isMany x property target (.link x property y)
  | one {y : Identity} : isMany = false → target = some y →
      Said isMany x property target (.one x property y)

theorem Said.about {isMany : Bool} {x : Identity} {p : String} {target : Option Identity} {f : Fact}
    (h : Said isMany x p target f) : f.subject = x ∧ f.property = p := by
  cases h <;> exact ⟨rfl, rfl⟩

namespace ObjectStore

variable {s s' : ObjectStore} {F F' : Fact → Prop} {i j : Nat} {x : Identity} {p : String}

/-! ## Identities -/

/-- The entity and the key of an object. -/
def identity? (s : ObjectStore) (i : Nat) : Option Identity :=
  (s.get? i).map fun a => (a.entity, a.key)

theorem identity?_eq_some : s.identity? i = some x ↔
    ∃ a, s.get? i = some a ∧ (a.entity, a.key) = x := by
  rw [identity?, Option.map_eq_some_iff]

theorem identity?_lt (h : s.identity? i = some x) : i < s.size := by
  obtain ⟨a, ha, -⟩ := identity?_eq_some.1 h
  exact get?_lt ha

theorem exists_identity (h : i < s.size) : ∃ x, s.identity? i = some x := by
  obtain ⟨a, ha⟩ := get?_of_lt h
  exact ⟨_, identity?_eq_some.2 ⟨a, ha, rfl⟩⟩

theorem identity?_lt_iff : i < s.size ↔ ∃ x, s.identity? i = some x :=
  ⟨exists_identity, fun ⟨_, hx⟩ => identity?_lt hx⟩

theorem identity?_inj (hwf : s.WF) (hi : s.identity? i = some x) (hj : s.identity? j = some x) :
    i = j := by
  obtain ⟨a, ha, rfl⟩ := identity?_eq_some.1 hi
  obtain ⟨b, hb, heq⟩ := identity?_eq_some.1 hj
  obtain ⟨he, hk⟩ := Prod.mk.inj heq
  have hself := hwf.self ha
  rw [← he, ← hk] at hself
  exact hwf.distinct ha hb hself

theorem identity?_extends (h : s.Extends s') (hi : s.identity? i = some x) :
    s'.identity? i = some x := by
  obtain ⟨a, ha, rfl⟩ := identity?_eq_some.1 hi
  obtain ⟨b, hb, he, hk⟩ := h i a ha
  exact identity?_eq_some.2 ⟨b, hb, by rw [he, hk]⟩

theorem identity?_iff (h : s.Extends s') (hi : i < s.size) :
    s'.identity? i = some x ↔ s.identity? i = some x := by
  obtain ⟨y, hy⟩ := exists_identity hi
  rw [hy, identity?_extends h hy]

theorem extends_of_identity (h : ∀ i, s'.identity? i = s.identity? i) :
    s.Extends s' := by
  intro i a ha
  have hi := (h i).trans (identity?_eq_some.2 ⟨a, ha, rfl⟩)
  obtain ⟨b, hb, heq⟩ := identity?_eq_some.1 hi
  obtain ⟨he, hk⟩ := Prod.mk.inj heq
  exact ⟨b, hb, he, hk⟩

theorem identity?_update {f : Record → Record} (hf : Keeps f) (id i : Nat) :
    (s.update id f).identity? i = s.identity? i := by
  unfold identity?
  rw [get?_update]
  cases s.get? i with
  | none => rfl
  | some a =>
    dsimp only [Option.map_some]
    split
    · rw [(hf a).1, (hf a).2]
    · rfl

/-! ## Properties after a link -/

theorem related?_update (s : ObjectStore) (id : Nat) (f : Record → Record) (i : Nat) (p : String) :
    (s.update id f).related? i p =
      if id = i then (s.get? i).bind fun a => (f a).related? p else s.related? i p := by
  unfold related?
  rw [get?_update]
  cases s.get? i with
  | none => simp
  | some a => by_cases h : id = i <;> simp [h]

theorem related?_relate_update (ha : i < s.size) (p : String) (v : Related) (j : Nat) (q : String) :
    (s.update i (·.relate p v)).related? j q =
      if j = i ∧ q = p then some v else s.related? j q := by
  rw [related?_update]
  by_cases hij : i = j
  · subst hij
    obtain ⟨a, ha⟩ := get?_of_lt ha
    rw [if_pos rfl, ha, Option.bind_some, related?_relate, related?, ha, Option.bind_some]
    simp
  · rw [if_neg hij, if_neg fun h => hij h.1.symm]

/-- A collection that is there stays as it is, and one that is not begins empty. -/
theorem related?_initMany {a : Record} (ha : s.get? i = some a) (p : String) (j : Nat) (q : String) :
    (s.initMany i p).related? j q =
      if j = i ∧ q = p then some (.many (a.many p)) else s.related? j q := by
  unfold initMany
  rw [related?_update]
  by_cases hij : i = j
  · subst hij
    rw [if_pos rfl, ha, Option.bind_some, related?, ha, Option.bind_some]
    unfold Record.initMany Record.many
    split
    · rename_i ids hids
      rw [hids]
      by_cases hq : q = p
      · rw [if_pos ⟨rfl, hq⟩, hq, hids]
        rfl
      · rw [if_neg fun h => hq h.2]
    · rename_i hno
      rw [related?_relate]
      by_cases hq : q = p
      · rw [if_pos hq, if_pos ⟨rfl, hq⟩]
        cases hr : a.related? p with
        | none => rfl
        | some r =>
          cases r with
          | one t => rfl
          | many ids => exact (hno ids hr).elim
      · rw [if_neg hq, if_neg fun h => hq h.2]
  · rw [if_neg hij, if_neg fun h => hij h.1.symm]

/-- A property for one object holds what it was given last. -/
theorem related?_point (hi : i < s.size) (p : String) (t j : Nat) (q : String) :
    (s.related false i p (some t)).related? j q =
      if j = i ∧ q = p then some (.one t) else s.related? j q := by
  obtain ⟨a, ha⟩ := get?_of_lt hi
  show (s.linkOne i p t).2.related? j q = _
  unfold linkOne
  rw [ha]
  exact related?_relate_update hi p (.one t) j q

/-- A collection is given an object at its end, unless the object is in it. -/
theorem related?_gather {a : Record} (ha : s.get? i = some a) (p : String) (t j : Nat) (q : String) :
    (s.related true i p (some t)).related? j q =
      if j = i ∧ q = p then
        some (.many (if t ∈ a.many p then a.many p else a.many p ++ [t]))
      else s.related? j q := by
  show (s.linkMany i p t).2.related? j q = _
  unfold linkMany
  rw [ha]
  dsimp only
  rw [many_initMany]
  by_cases hmem : t ∈ a.many p
  · rw [if_pos (List.contains_iff_mem.2 hmem), if_pos hmem]
    exact related?_initMany ha p j q
  · rw [if_neg fun h => hmem (List.contains_iff_mem.1 h), if_neg hmem]
    exact related?_relate_update (get?_lt ha) p _ j q

/-- What a property holds once it was given a target. -/
theorem related?_related {a : Record} (ha : s.get? i = some a) (isMany : Bool) (p : String)
    (target : Option Nat) (hsome : isMany = false → target ≠ none) :
    ∃ v, (∀ j q, (s.related isMany i p target).related? j q =
        if j = i ∧ q = p then some v else s.related? j q) ∧
      (isMany = true → ∃ ids, v = .many ids ∧ ∀ k, k ∈ ids ↔ k ∈ a.many p ∨ target = some k) ∧
      (isMany = false → ∀ t, target = some t → v = .one t) := by
  cases isMany <;> cases target
  case false.none => exact (hsome rfl rfl).elim
  case false.some t =>
    exact ⟨.one t, related?_point (get?_lt ha) p t, fun h => (nomatch h), fun _ u hu => by
      cases hu; rfl⟩
  case true.none =>
    exact ⟨.many (a.many p), fun j q => related?_initMany ha p j q,
      fun _ => ⟨a.many p, rfl, fun k => by simp⟩, fun h => nomatch h⟩
  case true.some t =>
    refine ⟨_, related?_gather ha p t, fun _ => ⟨_, rfl, fun k => ?_⟩, fun h => nomatch h⟩
    rw [Option.some.injEq]
    split
    · rename_i hmem
      exact ⟨.inl, fun h => h.elim id fun heq => heq ▸ hmem⟩
    · rw [List.mem_append, List.mem_singleton, eq_comm (a := k)]

theorem identity?_related (s : ObjectStore) (isMany : Bool) (i : Nat) (p : String)
    (target : Option Nat) (j : Nat) :
    (s.related isMany i p target).identity? j = s.identity? j := by
  cases isMany <;> cases target
  case false.none => rfl
  case false.some t =>
    show (s.linkOne i p t).2.identity? j = _
    unfold linkOne
    split
    · rfl
    · exact identity?_update (keeps_relate _ _) ..
  case true.none => exact identity?_update (keeps_initMany p) ..
  case true.some t =>
    show (s.linkMany i p t).2.identity? j = _
    unfold linkMany
    split
    · rfl
    · dsimp only
      split
      · exact identity?_update (keeps_initMany p) ..
      · exact identity?_update (keeps_relate _ _) ..

/-! ## Facts that a store shows -/

/-- Whether what an object holds under a property is what facts say of it. -/
def Tells (s : ObjectStore) (F : Fact → Prop) (x : Identity) (p : String) : Option Related → Prop
  | none => ¬ F (.many x p) ∧ ∀ y, ¬ F (.one x p y)
  | some (.many ids) => F (.many x p) ∧ ∀ y, F (.link x p y) ↔ ∃ k ∈ ids, s.identity? k = some y
  | some (.one k) => ¬ F (.many x p) ∧ ∀ y, F (.one x p y) ↔ s.identity? k = some y

/-- A store of which the facts say all there is, and nothing else. -/
structure Shows (s : ObjectStore) (F : Fact → Prop) : Prop where
  about : ∀ f, F f → ∃ i, s.identity? i = some f.subject
  linked : ∀ x p y, F (.link x p y) → F (.many x p)
  tells : ∀ i x p, s.identity? i = some x → s.Tells F x p (s.related? i p)

theorem shows_empty : ObjectStore.empty.Shows fun _ => False := by
  refine ⟨fun _ h => h.elim, fun _ _ _ h => h.elim, fun i x p hi => ?_⟩
  cases hi

/-- What is told does not depend on facts of other objects and properties, nor on objects that do not
belong to it. -/
theorem Tells.congr {r : Option Related} (h : s.Tells F x p r)
    (hF : ∀ f : Fact, f.subject = x → f.property = p → (F' f ↔ F f))
    (hid : ∀ v, r = some v → ∀ k ∈ v.targets, ∀ y, s'.identity? k = some y ↔ s.identity? k = some y) :
    s'.Tells F' x p r := by
  have hmany := hF (.many x p) rfl rfl
  have hone : ∀ y, F' (.one x p y) ↔ F (.one x p y) := fun y => hF (.one x p y) rfl rfl
  have hlink : ∀ y, F' (.link x p y) ↔ F (.link x p y) := fun y => hF (.link x p y) rfl rfl
  cases r with
  | none => exact ⟨fun h' => h.1 (hmany.1 h'), fun y h' => h.2 y ((hone y).1 h')⟩
  | some v =>
    cases v with
    | many ids =>
      refine ⟨hmany.2 h.1, fun y => ?_⟩
      rw [hlink, h.2 y]
      exact exists_congr fun k => and_congr_right fun hk => (hid _ rfl k hk y).symm
    | one k =>
      refine ⟨fun h' => h.1 (hmany.1 h'), fun y => ?_⟩
      rw [hone, h.2 y]
      exact (hid _ rfl k (List.mem_singleton_self k) y).symm

/-- A store that grows by objects to which nothing is related shows what it showed. -/
theorem Shows.grow (h : s.Shows F) (hwf : s.WF) (hwf' : s'.WF) (hext : s.Extends s')
    (hrel : ∀ i p, s'.related? i p = s.related? i p) : s'.Shows F := by
  refine ⟨fun f hf => ?_, h.linked, fun i x p hi => ?_⟩
  · obtain ⟨i, hi⟩ := h.about f hf
    exact ⟨i, identity?_extends hext hi⟩
  · rw [hrel]
    by_cases hlt : i < s.size
    · obtain ⟨y, hy⟩ := exists_identity hlt
      have hsame := identity?_extends hext hy
      rw [hi] at hsame
      cases hsame
      refine (h.tells i x p hy).congr (fun _ _ _ => Iff.rfl) fun v hv k hk y => ?_
      obtain ⟨a, ha, hav⟩ := Option.bind_eq_some_iff.1 hv
      exact identity?_iff hext (hwf.linked ha hav k hk)
    · -- no fact is about an object that was not there
      have hnone : s.related? i p = none := by
        rw [related?, get?, List.getElem?_eq_none (Nat.le_of_not_lt hlt)]
        rfl
      have hnew : ∀ f : Fact, f.subject = x → ¬ F f := by
        rintro f rfl hf
        obtain ⟨j, hj⟩ := h.about f hf
        have hij := identity?_inj hwf' hi (identity?_extends hext hj)
        exact hlt (hij ▸ identity?_lt hj)
      rw [hnone]
      exact ⟨hnew _ rfl, fun y => hnew _ rfl⟩

/-- Facts that never say of one property both that it is a collection and that it holds one object. -/
def Compatible (F : Fact → Prop) : Prop := ∀ x p y, F (.many x p) → F (.one x p y) → False

theorem related?_of_get? {a : Record} (ha : s.get? i = some a) (p : String) :
    s.related? i p = a.related? p := by
  rw [related?, ha, Option.bind_some]

/-- A collection that was given a target holds what it held and that target. -/
theorem Shows.tells_many (h : s.Shows F) (hwf : s.WF) {a : Record} (ha : s.get? i = some a)
    (hx : (a.entity, a.key) = x) {target : Option Nat} {ids : List Nat}
    (hcompatible : Compatible fun f => F f ∨ Said true x p (target.bind s.identity?) f)
    (hids : ∀ k, k ∈ ids ↔ k ∈ a.many p ∨ target = some k) :
    s.Tells (fun f => F f ∨ Said true x p (target.bind s.identity?) f) x p (some (.many ids)) := by
  have hi := identity?_eq_some.2 ⟨a, ha, hx⟩
  have htells := h.tells i x p hi
  rw [related?_of_get? ha] at htells
  -- what is in the collection so far
  have hold : ∀ y, F (.link x p y) ↔ ∃ k ∈ a.many p, s.identity? k = some y := by
    intro y
    unfold Record.many
    cases hr : a.related? p with
    | none =>
      rw [hr] at htells
      refine ⟨fun hlink => (htells.1 (h.linked x p y hlink)).elim, ?_⟩
      rintro ⟨k, hk, -⟩
      cases hk
    | some r =>
      rw [hr] at htells
      cases r with
      | many ids => exact htells.2 y
      | one k =>
        obtain ⟨z, hz⟩ := exists_identity (hwf.linked ha hr k (List.mem_singleton_self k))
        exact (hcompatible x p z (.inr (.many rfl)) (.inl ((htells.2 z).2 hz))).elim
  refine ⟨.inr (.many rfl), fun y => ?_⟩
  constructor
  · rintro (hlink | hsaid)
    · obtain ⟨k, hk, hy⟩ := (hold y).1 hlink
      exact ⟨k, (hids k).2 (.inl hk), hy⟩
    · cases hsaid with
      | link _ htarget =>
        obtain ⟨k, hk, hy⟩ := Option.bind_eq_some_iff.1 htarget
        exact ⟨k, (hids k).2 (.inr hk), hy⟩
  · rintro ⟨k, hk, hy⟩
    rcases (hids k).1 hk with hk | rfl
    · exact .inl ((hold y).2 ⟨k, hk, hy⟩)
    · exact .inr (.link rfl hy)

/-- A property for one object that lost no other one holds its target. -/
theorem Shows.tells_one (h : s.Shows F) {a : Record} (ha : s.get? i = some a)
    (hx : (a.entity, a.key) = x) {t : Nat} (ht : t < s.size)
    (hcompatible : Compatible fun f => F f ∨ Said false x p (s.identity? t) f)
    (hkept : (s.linkOne i p t).1 = none) :
    s.Tells (fun f => F f ∨ Said false x p (s.identity? t) f) x p (some (.one t)) := by
  have hi := identity?_eq_some.2 ⟨a, ha, hx⟩
  have htells := h.tells i x p hi
  rw [related?_of_get? ha] at htells
  obtain ⟨z, hz⟩ := exists_identity ht
  refine ⟨fun hmany => hcompatible x p z hmany (.inr (.one rfl hz)), fun y => ?_⟩
  constructor
  · rintro (hone | hsaid)
    · cases hr : a.related? p with
      | none =>
        rw [hr] at htells
        exact (htells.2 y hone).elim
      | some r =>
        rw [hr] at htells
        cases r with
        | many ids => exact (hcompatible x p y (.inl htells.1) (.inl hone)).elim
        | one k =>
          have hsame : k = t := by
            unfold linkOne at hkept
            rw [ha] at hkept
            simp only [Record.one, hr, Option.bind_some, Related.one?, Option.filter] at hkept
            by_contra hne
            simp [hne] at hkept
          rw [← hsame]
          exact (htells.2 y).1 hone
    · cases hsaid with
      | one _ htarget => exact htarget
  · exact fun hy => .inr (.one rfl hy)

/-- Giving a property a target adds what is said by it, unless it loses another target. -/
theorem Shows.related (h : s.Shows F) (hwf : s.WF) {isMany : Bool} {target : Option Nat}
    (hi : s.identity? i = some x) (htarget : ∀ t, target = some t → t < s.size)
    (hcompatible : Compatible fun f => F f ∨ Said isMany x p (target.bind s.identity?) f)
    (hkept : isMany = false → ∀ t, target = some t → (s.linkOne i p t).1 = none) :
    (s.related isMany i p target).Shows
      fun f => F f ∨ Said isMany x p (target.bind s.identity?) f := by
  obtain ⟨a, ha, hx⟩ := identity?_eq_some.1 hi
  have hid := identity?_related s isMany i p target
  refine ⟨fun f hf => ?about, fun y q z hf => ?linked, fun j y q hj => ?tells⟩
  case about =>
    rcases hf with hf | hf
    · obtain ⟨j, hj⟩ := h.about f hf
      exact ⟨j, (hid j).trans hj⟩
    · exact ⟨i, by rw [hid, hf.about.1, hi]⟩
  case linked =>
    rcases hf with hf | hf
    · exact .inl (h.linked y q z hf)
    · cases hf with
      | link hmany _ => exact .inr (.many hmany)
  case tells =>
    rw [hid] at hj
    -- of other properties nothing new is said
    have hother : ¬ (j = i ∧ q = p) → ∀ f : Fact, f.subject = y → f.property = q →
        (F f ∨ Said isMany x p (target.bind s.identity?) f ↔ F f) := by
      rintro hne f rfl rfl
      refine ⟨fun hf => hf.resolve_right fun hsaid => hne ⟨?_, hsaid.about.2⟩, .inl⟩
      rw [hsaid.about.1] at hj
      exact identity?_inj hwf hj hi
    by_cases hnothing : isMany = false ∧ target = none
    · -- nothing is said and nothing changes
      obtain ⟨rfl, rfl⟩ := hnothing
      refine (h.tells j y q hj).congr (fun f _ _ => ⟨fun hf => hf.resolve_right fun hsaid => ?_, .inl⟩)
        fun _ _ _ _ _ => Iff.rfl
      cases hsaid with
      | many hmany => cases hmany
      | link hmany _ => cases hmany
      | one _ hsome => cases hsome
    · obtain ⟨v, hrelated, hmany, hone⟩ := related?_related ha isMany p target
        fun hfalse hnone => hnothing ⟨hfalse, hnone⟩
      rw [hrelated]
      by_cases hcell : j = i ∧ q = p
      · obtain ⟨rfl, rfl⟩ := hcell
        rw [hi] at hj
        cases hj
        rw [if_pos ⟨rfl, rfl⟩]
        suffices htells : s.Tells (fun f => F f ∨ Said isMany x q (target.bind s.identity?) f) x q
            (some v) from
          htells.congr (fun _ _ _ => Iff.rfl) fun _ _ _ _ z => by rw [hid]
        cases isMany with
        | true =>
          obtain ⟨ids, rfl, hids⟩ := hmany rfl
          exact h.tells_many hwf ha hx hcompatible hids
        | false =>
          cases target with
          | none => exact (hnothing ⟨rfl, rfl⟩).elim
          | some t =>
            rw [hone rfl t rfl]
            exact h.tells_one ha hx (htarget t rfl) hcompatible (hkept rfl t rfl)
      · rw [if_neg hcell]
        exact (h.tells j y q hj).congr (hother hcell) fun _ _ _ _ z => by rw [hid]

theorem Compatible.mono (h : Compatible F') (hF : ∀ f, F f → F' f) : Compatible F :=
  fun x p y hmany hone => h x p y (hF _ hmany) (hF _ hone)

theorem Shows.iff (h : s.Shows F) (hF : ∀ f, F' f ↔ F f) : s.Shows F' := by
  rw [show F' = F from funext fun f => propext (hF f)]
  exact h

end ObjectStore

/-! ## Facts that a row adds -/

namespace Relation

open ObjectStore

variable {r : Relation} {sourceAlias targetAlias : String} {back : Option String} {l l' : Links}
  {F T : Fact → Prop} {ident : Nat → Option Identity}

/-- What a row says when it is linked: the target of its source and, where the way back holds one
object, the source of its target. -/
def RowSays (r : Relation) (sourceAlias targetAlias : String) (back : Option String)
    (ident : Nat → Option Identity) (row : Row) (f : Fact) : Prop :=
  ∃ i x target, row.object sourceAlias = .ok (some i) ∧ ident i = some x ∧
    row.object targetAlias = .ok target ∧
    (Said r.isMany x r.property (target.bind ident) f ∨
      ∃ b t y, back = some b ∧ target = some t ∧ ident t = some y ∧ Said false y b (some x) f)

/-- A store while its objects keep their identities and it shows some facts. -/
structure Showing (ident : Nat → Option Identity) (F : Fact → Prop) (s : ObjectStore) : Prop where
  wf : s.WF
  ident : ∀ i, s.identity? i = ident i
  shows : s.Shows F

/-- A link adds what it says. -/
theorem Showing.related {s : ObjectStore} (h : Showing ident F s) {isMany : Bool} {i : Nat}
    {p : String} {x : Identity} (target : Option Nat) (hi : ident i = some x)
    (htarget : ∀ t, target = some t → t < s.size) (hT : Compatible T)
    (hF : ∀ f, F f ∨ Said isMany x p (target.bind ident) f → T f)
    (hkept : isMany = false → ∀ t, target = some t → (s.linkOne i p t).1 = none) :
    Showing ident (fun f => F f ∨ Said isMany x p (target.bind ident) f)
      (s.related isMany i p target) := by
  have hident : s.identity? = ident := funext h.ident
  refine ⟨(related_ok h.wf isMany i p htarget).1, fun j => ?_, ?_⟩
  · rw [identity?_related, h.ident]
  · rw [← hident] at hi hF ⊢
    exact h.shows.related h.wf hi htarget (hT.mono hF) hkept

/-- Collections that are there for every object of a list. -/
theorem Showing.initMany {s : ObjectStore} (h : Showing ident F s) {property : String}
    {ids : List Nat} (hids : ∀ i ∈ ids, i < s.size) (hT : Compatible T)
    (hF : ∀ f, F f ∨ (∃ i ∈ ids, ∃ x, ident i = some x ∧ f = .many x property) → T f) :
    Showing ident (fun f => F f ∨ ∃ i ∈ ids, ∃ x, ident i = some x ∧ f = .many x property)
      (ids.foldl (·.initMany · property) s) := by
  induction ids generalizing s F with
  | nil => exact ⟨h.wf, h.ident, h.shows.iff fun f => by simp⟩
  | cons i ids ih =>
    obtain ⟨x, hx⟩ := exists_identity (hids i (List.mem_cons_self ..))
    have hident := hx
    rw [h.ident] at hident
    have hsaid : ∀ f, Said true x property ((none : Option Nat).bind ident) f ↔
        ∃ y, ident i = some y ∧ f = .many y property := by
      intro f
      constructor
      · rintro (⟨-⟩ | ⟨-, hnone⟩ | ⟨hfalse, -⟩)
        · exact ⟨x, hident, rfl⟩
        · cases hnone
        · cases hfalse
      · rintro ⟨y, hy, rfl⟩
        rw [hident] at hy
        cases hy
        exact .many rfl
    have hiff : ∀ f, (F f ∨ Said true x property ((none : Option Nat).bind ident) f) ∨
        (∃ j ∈ ids, ∃ x, ident j = some x ∧ f = .many x property) ↔
        F f ∨ ∃ j ∈ i :: ids, ∃ x, ident j = some x ∧ f = .many x property := by
      intro f
      rw [hsaid, or_assoc, List.exists_mem_cons_iff]
    have hfirst := h.related none hident (fun t ht => nomatch ht) hT
      (fun f hf => hF f ((hiff f).1 (.inl hf))) (fun hfalse => nomatch hfalse)
    have hrest := ih hfirst
      (fun j hj => by
        rw [identity?_lt_iff]
        obtain ⟨y, hy⟩ := exists_identity (hids j (List.mem_cons_of_mem _ hj))
        exact ⟨y, by rw [hfirst.ident, ← h.ident, hy]⟩)
      (fun f hf => hF f ((hiff f).1 hf))
    exact ⟨hrest.wf, hrest.ident, hrest.shows.iff fun f => (hiff f).symm⟩

/-- What a row says of the objects that it has. -/
theorem rowSays_of_objects {row : Row} {i : Nat} {x : Identity} {target : Option Nat}
    (hi : row.object sourceAlias = .ok (some i)) (hx : ident i = some x)
    (ht : row.object targetAlias = .ok target) (f : Fact) :
    r.RowSays sourceAlias targetAlias back ident row f ↔
      Said r.isMany x r.property (target.bind ident) f ∨
        ∃ b t y, back = some b ∧ target = some t ∧ ident t = some y ∧ Said false y b (some x) f := by
  refine ⟨?_, fun hf => ⟨i, x, target, hi, hx, ht, hf⟩⟩
  rintro ⟨j, z, target', hj, hz, ht', hf⟩
  rw [hi] at hj
  cases hj
  rw [hx] at hz
  cases hz
  rw [ht] at ht'
  cases ht'
  exact hf

theorem linkRow_shows {row : Row} (hl : Showing ident F l.store)
    (hsource : row.Valid l.store sourceAlias) (htarget : row.Valid l.store targetAlias)
    (hT : Compatible T)
    (hF : ∀ f, F f ∨ r.RowSays sourceAlias targetAlias back ident row f → T f)
    (h : r.linkRow sourceAlias targetAlias back .error row l = .ok ⟨⟩ l') :
    Showing ident (fun f => F f ∨ r.RowSays sourceAlias targetAlias back ident row f) l'.store := by
  rcases linkRow_ok h with ⟨hnone, hstore⟩ | ⟨i, target, l₁, hi, ht, hforward, hback⟩
  · -- a row without a source says nothing
    rw [hstore]
    refine ⟨hl.wf, hl.ident, hl.shows.iff fun f => ⟨fun hf => hf.resolve_right ?_, .inl⟩⟩
    rintro ⟨j, -, -, hj, -⟩
    rw [hnone] at hj
    cases hj
  · obtain ⟨x, hx⟩ := exists_identity (hsource i hi)
    rw [hl.ident] at hx
    obtain ⟨hstore, hkept⟩ := linkForward_ok hforward
    have hvalid : ∀ t, target = some t → t < l.store.size := fun t heq => htarget t (heq ▸ ht)
    have hall : ∀ f, r.RowSays sourceAlias targetAlias back ident row f ↔ _ :=
      rowSays_of_objects hi hx ht
    have hl₁ := hl.related target hx hvalid hT
      (fun f hf => hF f (hf.imp_right fun hsaid => (hall f).2 (.inl hsaid))) (hkept rfl)
    rw [← hstore] at hl₁
    -- whatever else the row says, it says backwards
    by_cases hboth : ∃ b t, back = some b ∧ target = some t
    · obtain ⟨b, t, rfl, rfl⟩ := hboth
      obtain ⟨y, hy⟩ := exists_identity (hvalid t rfl)
      rw [hl.ident] at hy
      obtain ⟨hstore', hkept'⟩ := linkBack_ok hback
      have hiff : ∀ f, (F f ∨ Said r.isMany x r.property ((some t).bind ident) f) ∨
          Said false y b ((some i).bind ident) f ↔
          F f ∨ r.RowSays sourceAlias targetAlias (some b) ident row f := by
        intro f
        rw [hall, or_assoc, Option.bind_some, Option.bind_some, hx]
        refine or_congr_right (or_congr_right ?_)
        constructor
        · exact fun hf => ⟨b, t, y, rfl, rfl, hy, hf⟩
        · rintro ⟨b', t', y', ⟨⟩, ⟨⟩, hy', hf⟩
          rw [hy] at hy'
          cases hy'
          exact hf
      have hl₂ := hl₁.related (some i) hy (fun u hu => by
        cases hu
        rw [identity?_lt_iff]
        exact ⟨x, by rw [hl₁.ident]; exact hx⟩) hT (fun f hf => hF f ((hiff f).1 hf))
        (fun _ u hu => by cases hu; exact hkept' rfl)
      rw [← hstore'] at hl₂
      exact ⟨hl₂.wf, hl₂.ident, hl₂.shows.iff fun f => (hiff f).symm⟩
    · have hsame : l' = l₁ := by
        cases back <;> cases target
        case some.some b t => exact (hboth ⟨b, t, rfl, rfl⟩).elim
        all_goals exact hback
      rw [hsame]
      refine ⟨hl₁.wf, hl₁.ident, hl₁.shows.iff fun f => ?_⟩
      rw [hall]
      refine or_congr_right ⟨fun hf => hf.resolve_right ?_, .inl⟩
      rintro ⟨b, t, -, hb, ht', -⟩
      exact hboth ⟨b, t, hb, ht'⟩

/-- Linking rows one after the other adds what each of them says. -/
theorem link_shows {reverse : Option Relation} {rows : List Row}
    (hl : Showing ident F l.store) (hsource : ∀ row ∈ rows, row.Valid l.store sourceAlias)
    (htarget : ∀ row ∈ rows, row.Valid l.store targetAlias) (hT : Compatible T)
    (hF : ∀ f, F f ∨ (∃ row ∈ rows,
      r.RowSays sourceAlias targetAlias (backProperty reverse) ident row f) → T f)
    (h : r.link sourceAlias targetAlias reverse .error rows l = .ok ⟨⟩ l') :
    Showing ident (fun f => F f ∨ ∃ row ∈ rows,
      r.RowSays sourceAlias targetAlias (backProperty reverse) ident row f) l'.store := by
  have hlt : ∀ (s s' : ObjectStore), (∀ i, s.identity? i = ident i) →
      (∀ i, s'.identity? i = ident i) → ∀ i, i < s.size → i < s'.size := by
    intro s s' hs hs' i hi
    obtain ⟨x, hx⟩ := exists_identity hi
    exact identity?_lt ((hs' i).trans ((hs i).symm.trans hx))
  refine forM_builds (P := fun done l₁ => Showing ident (fun f => F f ∨ ∃ row ∈ done,
    r.RowSays sourceAlias targetAlias (backProperty reverse) ident row f) l₁.store)
    ?step ⟨hl.wf, hl.ident, hl.shows.iff fun f => ?start⟩ h
  case start => simp
  case step =>
    rintro pre row post hsplit l₁ l₂ hl₁ hrow
    have hmem : row ∈ rows := hsplit ▸ List.mem_append_right _ (List.mem_cons_self ..)
    have hiff : ∀ f, ((F f ∨ ∃ q ∈ pre, r.RowSays sourceAlias targetAlias (backProperty reverse) ident
        q f) ∨ r.RowSays sourceAlias targetAlias (backProperty reverse) ident row f) ↔
        F f ∨ ∃ q ∈ pre ++ [row], r.RowSays sourceAlias targetAlias (backProperty reverse) ident
          q f := by
      intro f
      simp only [List.mem_append, List.mem_singleton, or_and_right, exists_or, exists_eq_left,
        or_assoc]
    have hall : ∀ q ∈ pre ++ [row], q ∈ rows := by
      intro q hq
      rcases List.mem_append.1 hq with hq | hq
      · exact hsplit ▸ List.mem_append_left _ hq
      · rw [List.mem_singleton.1 hq]
        exact hmem
    have hnext := linkRow_shows hl₁
      (fun i hi => hlt _ _ hl.ident hl₁.ident i (hsource row hmem i hi))
      (fun i hi => hlt _ _ hl.ident hl₁.ident i (htarget row hmem i hi)) hT
      (fun f hf => hF f (((hiff f).1 hf).imp_right fun ⟨q, hq, htold⟩ => ⟨q, hall q hq, htold⟩)) hrow
    exact ⟨hnext.wf, hnext.ident, hnext.shows.iff fun f => (hiff f).symm⟩

end Relation

end GraphLoad
