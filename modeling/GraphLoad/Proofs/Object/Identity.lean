/-
The identity of objects: a store in which an entity and a key tell every object from all others, no
key is null and every property refers to objects of the store. Loading and linking keep it so, and an
object keeps its number, its entity and its key for good.
-/
import GraphLoad.Proofs.Object.Sameness
import GraphLoad.Object.Store

namespace GraphLoad

/-- The objects a property refers to. -/
def Related.targets : Related → List Nat
  | .one target => [target]
  | .many targets => targets

theorem Record.isFor_iff {r : Record} {entity : String} {key : Key} :
    r.isFor entity key = true ↔ r.entity = entity ∧ r.key.meets key = true := by
  rw [isFor, Bool.and_eq_true, beq_iff_eq]

namespace ObjectStore

/-- Objects that their entities and keys tell apart, that have keys, and that refer to each other. -/
structure WF (s : ObjectStore) : Prop where
  keyed : ∀ {i a}, s.get? i = some a → a.key.Regular ∧ a.key.isNull = false
  distinct : ∀ {i j a b}, s.get? i = some a → s.get? j = some b → a.isFor b.entity b.key = true →
    i = j
  linked : ∀ {i a p r}, s.get? i = some a → a.related? p = some r → ∀ t ∈ r.targets, t < s.size

/-- Every object of `s` is in `s'` under its number, with its entity and its key. -/
def Extends (s s' : ObjectStore) : Prop :=
  ∀ i a, s.get? i = some a → ∃ b, s'.get? i = some b ∧ b.entity = a.entity ∧ b.key = a.key

variable {s s' s'' : ObjectStore}

theorem wf_empty : ObjectStore.empty.WF := by
  refine ⟨fun h => ?_, fun h => ?_, fun h => ?_⟩ <;> cases h

theorem Extends.refl (s : ObjectStore) : s.Extends s := fun _ a h => ⟨a, h, rfl, rfl⟩

theorem Extends.trans (h : s.Extends s') (h' : s'.Extends s'') : s.Extends s'' := by
  intro i a ha
  obtain ⟨b, hb, he, hk⟩ := h i a ha
  obtain ⟨c, hc, he', hk'⟩ := h' i b hb
  exact ⟨c, hc, he'.trans he, hk'.trans hk⟩

theorem get?_lt {i : Nat} {a : Record} (h : s.get? i = some a) : i < s.size :=
  (List.getElem?_eq_some_iff.1 h).1

theorem get?_of_lt {i : Nat} (h : i < s.size) : ∃ a, s.get? i = some a :=
  ⟨s.records[i], List.getElem?_eq_getElem h⟩

theorem Extends.lt (h : s.Extends s') {i : Nat} (hi : i < s.size) : i < s'.size := by
  obtain ⟨a, ha⟩ := get?_of_lt hi
  obtain ⟨b, hb, -⟩ := h i a ha
  exact get?_lt hb

theorem WF.self (hwf : s.WF) {i : Nat} {a : Record} (h : s.get? i = some a) :
    a.isFor a.entity a.key = true :=
  Record.isFor_iff.2 ⟨rfl, Key.meets_refl (hwf.keyed h).1⟩

/-- In a well-formed store two numbers are one exactly when their objects are of one entity and
their keys meet. -/
theorem WF.eq_iff (hwf : s.WF) {i j : Nat} {a b : Record} (ha : s.get? i = some a)
    (hb : s.get? j = some b) : i = j ↔ a.entity = b.entity ∧ a.key.meets b.key = true := by
  rw [← Record.isFor_iff]
  refine ⟨?_, hwf.distinct ha hb⟩
  rintro rfl
  rw [ha] at hb
  cases hb
  exact hwf.self ha

/-- What an object holds under a property. -/
def related? (s : ObjectStore) (id : Nat) (property : String) : Option Related :=
  (s.get? id).bind (·.related? property)

/-! ## Changing one object -/

theorem size_update (s : ObjectStore) (id : Nat) (f : Record → Record) :
    (s.update id f).size = s.size := by
  simp [size, update]

theorem get?_update (s : ObjectStore) (id : Nat) (f : Record → Record) (i : Nat) :
    (s.update id f).get? i = (s.get? i).map fun a => if id = i then f a else a := by
  simp only [update, get?, List.getElem?_modify]
  rfl

theorem get?_update_some {id i : Nat} {f : Record → Record} {b : Record}
    (h : (s.update id f).get? i = some b) :
    ∃ a, s.get? i = some a ∧ ((id = i ∧ b = f a) ∨ (id ≠ i ∧ b = a)) := by
  rw [get?_update] at h
  obtain ⟨a, ha, rfl⟩ := Option.map_eq_some_iff.1 h
  refine ⟨a, ha, ?_⟩
  split
  · exact .inl ⟨‹_›, rfl⟩
  · exact .inr ⟨‹_›, rfl⟩

/-- A change that leaves an object its entity and its key. -/
def Keeps (f : Record → Record) : Prop := ∀ a, (f a).entity = a.entity ∧ (f a).key = a.key

theorem keeps_refresh (values : List (String × Value)) : Keeps (·.refresh values) :=
  fun _ => ⟨rfl, rfl⟩

theorem keeps_relate (property : String) (value : Related) : Keeps (·.relate property value) :=
  fun _ => ⟨rfl, rfl⟩

theorem keeps_initMany (property : String) : Keeps (·.initMany property) := by
  intro a
  simp only [Record.initMany]
  split <;> exact ⟨rfl, rfl⟩

theorem extends_update {f : Record → Record} (hf : Keeps f) (id : Nat) :
    s.Extends (s.update id f) := by
  intro i a h
  rw [get?_update, h]
  refine ⟨_, rfl, ?_⟩
  split
  · exact hf a
  · exact ⟨rfl, rfl⟩

theorem wf_update (hwf : s.WF) {f : Record → Record} (hf : Keeps f) {id : Nat}
    (hlinked : ∀ a, s.get? id = some a → ∀ p r, (f a).related? p = some r → ∀ t ∈ r.targets,
      t < s.size) : (s.update id f).WF := by
  have hback : ∀ {i b}, (s.update id f).get? i = some b →
      ∃ a, s.get? i = some a ∧ b.entity = a.entity ∧ b.key = a.key := by
    intro i b h
    obtain ⟨a, ha, ⟨-, rfl⟩ | ⟨-, rfl⟩⟩ := get?_update_some h
    · exact ⟨a, ha, hf a⟩
    · exact ⟨b, ha, rfl, rfl⟩
  constructor
  case keyed =>
    intro i b h
    obtain ⟨a, ha, -, hk⟩ := hback h
    rw [hk]
    exact hwf.keyed ha
  case distinct =>
    intro i j b b' h h' hfor
    obtain ⟨a, ha, he, hk⟩ := hback h
    obtain ⟨a', ha', he', hk'⟩ := hback h'
    rw [Record.isFor_iff, he, hk, he', hk', ← Record.isFor_iff] at hfor
    exact hwf.distinct ha ha' hfor
  case linked =>
    intro i b p r h hr
    rw [size_update]
    obtain ⟨a, ha, ⟨rfl, rfl⟩ | ⟨-, rfl⟩⟩ := get?_update_some h
    · exact hlinked a ha p r hr
    · exact hwf.linked ha hr

theorem related?_relate (a : Record) (property : String) (value : Related) (p : String) :
    (a.relate property value).related? p = if p = property then some value else a.related? p := by
  unfold Record.related? Record.relate
  split
  · rename_i h; rw [h]; exact OrderedMap.get?_insert_self ..
  · rename_i h; exact OrderedMap.get?_insert_of_ne _ h _

theorem wf_relate (hwf : s.WF) {id : Nat} {property : String} {value : Related}
    (hvalue : ∀ t ∈ value.targets, t < s.size) : (s.update id (·.relate property value)).WF := by
  refine wf_update hwf (keeps_relate property value) fun a ha p r hr => ?_
  rw [related?_relate] at hr
  split at hr
  · cases hr; exact hvalue
  · exact hwf.linked ha hr

/-! ## Loading -/

/-- Whether a number is that of the object of an entity and a key. -/
def Stands (s : ObjectStore) (entity : String) (key : Key) (id : Nat) : Prop :=
  ∃ a, s.get? id = some a ∧ a.isFor entity key = true

theorem Stands.extends {entity : String} {key : Key} {id : Nat} (h : s.Stands entity key id)
    (hext : s.Extends s') : s'.Stands entity key id := by
  obtain ⟨a, ha, hfor⟩ := h
  obtain ⟨b, hb, he, hk⟩ := hext id a ha
  rw [Record.isFor_iff, ← he, ← hk, ← Record.isFor_iff] at hfor
  exact ⟨b, hb, hfor⟩

theorem Stands.lt {entity : String} {key : Key} {id : Nat} (h : s.Stands entity key id) :
    id < s.size := by
  obtain ⟨a, ha, -⟩ := h
  exact get?_lt ha

theorem find?_some {entity : String} {key : Key} {id : Nat} (h : s.find? entity key = some id) :
    s.Stands entity key id := by
  obtain ⟨hlt, hfor, -⟩ := List.findIdx?_eq_some_iff_getElem.1 h
  exact ⟨s.records[id], List.getElem?_eq_getElem hlt, hfor⟩

theorem find?_none {entity : String} {key : Key} (h : s.find? entity key = none) {i : Nat}
    {a : Record} (ha : s.get? i = some a) : a.isFor entity key = false :=
  List.findIdx?_eq_none_iff.1 h a (List.mem_of_getElem? ha)

/-- A new object comes after all others. -/
theorem get?_snoc (s : ObjectStore) (r : Record) (i : Nat) :
    ObjectStore.get? ⟨s.records ++ [r]⟩ i = if i = s.size then some r else s.get? i := by
  unfold get? size
  rcases Nat.lt_trichotomy i s.records.length with hi | rfl | hi
  · rw [List.getElem?_append_left hi, if_neg (Nat.ne_of_lt hi)]
  · rw [List.getElem?_concat_length, if_pos rfl]
  · rw [if_neg (Nat.ne_of_gt hi), List.getElem?_eq_none (Nat.le_of_lt hi),
      List.getElem?_eq_none (by rw [List.length_append]; exact hi)]

theorem get?_append {r b : Record} {i : Nat} (h : ObjectStore.get? ⟨s.records ++ [r]⟩ i = some b) :
    s.get? i = some b ∨ (i = s.size ∧ b = r) := by
  rw [get?_snoc] at h
  split at h
  · cases h; exact .inr ⟨‹_›, rfl⟩
  · exact .inl h

theorem extends_append (s : ObjectStore) (r : Record) : s.Extends ⟨s.records ++ [r]⟩ := by
  intro i a h
  refine ⟨a, ?_, rfl, rfl⟩
  rw [get?, List.getElem?_append_left (get?_lt h)]
  exact h

theorem wf_append (hwf : s.WF) {r : Record} (hkey : r.key.Regular ∧ r.key.isNull = false)
    (hrel : ∀ p, r.related? p = none) (hnew : s.find? r.entity r.key = none) :
    ObjectStore.WF ⟨s.records ++ [r]⟩ := by
  have hapart : ∀ i a, s.get? i = some a → a.entity = r.entity → a.key.meets r.key = true →
      False := by
    intro i a ha he hm
    have hfor := find?_none hnew ha
    rw [Record.isFor_iff.2 ⟨he, hm⟩] at hfor
    cases hfor
  constructor
  case keyed =>
    intro i a h
    rcases get?_append h with h | ⟨-, rfl⟩
    · exact hwf.keyed h
    · exact hkey
  case distinct =>
    intro i j a b h h' hfor
    rw [Record.isFor_iff] at hfor
    rcases get?_append h with ha | ⟨rfl, rfl⟩ <;> rcases get?_append h' with hb | ⟨rfl, rfl⟩
    · exact hwf.distinct ha hb (Record.isFor_iff.2 hfor)
    · exact (hapart i a ha hfor.1 hfor.2).elim
    · exact (hapart j b hb hfor.1.symm (Key.meets_comm hfor.2)).elim
    · rfl
  case linked =>
    intro i a p x h hx t ht
    rcases get?_append h with h | ⟨-, rfl⟩
    · exact (extends_append s r).lt (hwf.linked h hx t ht)
    · rw [hrel] at hx; cases hx

/-- A load writes to the object that its key finds, and makes the next object if there is none. -/
theorem load_cases (s : ObjectStore) (entity : String) (key : Key) (values : List (String × Value)) :
    (∃ id, s.find? entity key = some id ∧
      s.load entity key values = (id, s.update id (·.refresh values))) ∨
    (s.find? entity key = none ∧ s.load entity key values =
      (s.size, ⟨s.records ++ [{ entity, key, fields := .ofList values }]⟩)) := by
  cases hfind : s.find? entity key with
  | some id =>
    refine .inl ⟨id, rfl, ?_⟩
    rw [load, hfind]
  | none =>
    refine .inr ⟨rfl, ?_⟩
    rw [load, hfind]

section
variable (s) (entity : String) (key : Key) (values : List (String × Value))

/-- A load gives its values to the object of its number, which without one before has no fields, and no
other object changes. -/
theorem get?_load (i : Nat) : (s.load entity key values).2.get? i =
    if i = (s.load entity key values).1 then
      some (((s.get? i).getD { entity, key, fields := .empty }).refresh values)
    else s.get? i := by
  rcases s.load_cases entity key values with ⟨id, hfind, hload⟩ | ⟨-, hload⟩
  · obtain ⟨a, ha, -⟩ := find?_some hfind
    rw [hload, get?_update]
    by_cases hi : i = id
    · subst hi
      rw [ha, if_pos rfl]
      exact congrArg some (if_pos rfl)
    · rw [if_neg hi]
      simp only [if_neg (Ne.symm hi), Option.map_id']
  · rw [hload, get?_snoc]
    split
    · rename_i heq
      rw [heq, get?, size, List.getElem?_eq_none (Nat.le_refl _)]
      rfl
    · rfl

/-- A load makes an object exactly if its key is not found. -/
theorem size_load : (s.load entity key values).2.size =
    if (s.find? entity key).isSome then s.size else s.size + 1 := by
  rcases s.load_cases entity key values with ⟨id, hfind, hload⟩ | ⟨hfind, hload⟩
  · rw [hload, hfind]
    exact size_update ..
  · rw [hload, hfind]
    simp [size]

theorem extends_load : s.Extends (s.load entity key values).2 := by
  intro i a ha
  rw [get?_load, ha]
  split
  · exact ⟨_, rfl, rfl, rfl⟩
  · exact ⟨a, rfl, rfl, rfl⟩

/-- The object of a load has its entity and the key that is loaded, or one that this key meets. -/
theorem loaded_load : ∃ a, (s.load entity key values).2.get? (s.load entity key values).1 = some a ∧
    a.entity = entity ∧ (a.key = key ∨ a.key.meets key = true) := by
  rw [get?_load, if_pos rfl]
  rcases s.load_cases entity key values with ⟨id, hfind, hload⟩ | ⟨-, hload⟩
  · obtain ⟨a, ha, hfor⟩ := find?_some hfind
    obtain ⟨hentity, hmeets⟩ := Record.isFor_iff.1 hfor
    rw [hload, ha]
    exact ⟨_, rfl, hentity, .inr hmeets⟩
  · rw [hload, get?, size, List.getElem?_eq_none (Nat.le_refl _)]
    exact ⟨_, rfl, rfl, .inl rfl⟩

end

variable {entity : String} {key : Key} {values : List (String × Value)} {id : Nat}

theorem load_ok (hwf : s.WF) (hkey : key.Regular) (hnull : key.isNull = false)
    (h : s.load entity key values = (id, s')) :
    s'.WF ∧ s.Extends s' ∧ s'.Stands entity key id := by
  have hid : (s.load entity key values).1 = id := congrArg Prod.fst h
  have hs' : (s.load entity key values).2 = s' := congrArg Prod.snd h
  refine ⟨?_, hs' ▸ s.extends_load entity key values, ?_⟩
  · rcases s.load_cases entity key values with ⟨found, -, hload⟩ | ⟨hfind, hload⟩ <;>
      cases h.symm.trans hload
    · exact wf_update hwf (keeps_refresh values) fun a ha p r hr => hwf.linked ha hr
    · exact wf_append hwf ⟨hkey, hnull⟩ (fun p => rfl) hfind
  · obtain ⟨a, ha, hentity, hmeets⟩ := s.loaded_load entity key values
    rw [hid, hs'] at ha
    refine ⟨a, ha, Record.isFor_iff.2 ⟨hentity, hmeets.elim (fun heq => ?_) fun hmeets => hmeets⟩⟩
    rw [heq]
    exact Key.meets_refl hkey

/-- An object that loading leaves was there before or is the one that was loaded. -/
theorem load_made {i : Nat} {b : Record} (h : s.load entity key values = (id, s'))
    (hb : s'.get? i = some b) : (∃ a, s.get? i = some a ∧ b.entity = a.entity ∧ b.key = a.key) ∨
      (b.entity = entity ∧ b.key = key) := by
  obtain rfl : (s.load entity key values).2 = s' := congrArg Prod.snd h
  rw [get?_load] at hb
  split at hb
  · cases ha : s.get? i with
    | some a =>
      rw [ha] at hb
      cases hb
      exact .inl ⟨a, rfl, rfl, rfl⟩
    | none =>
      rw [ha] at hb
      cases hb
      exact .inr ⟨rfl, rfl⟩
  · exact .inl ⟨b, hb, rfl, rfl⟩

/-- Loading an object relates nothing. -/
theorem related?_load (h : s.load entity key values = (id, s')) (i : Nat) (p : String) :
    s'.related? i p = s.related? i p := by
  obtain rfl : (s.load entity key values).2 = s' := congrArg Prod.snd h
  rw [related?, related?, get?_load]
  split
  · cases s.get? i <;> rfl
  · rfl

/-! ## Linking -/

theorem many_initMany (a : Record) (property : String) :
    (a.initMany property).many property = a.many property := by
  unfold Record.initMany
  split
  · rfl
  · rename_i h
    have hmany : a.many property = [] := by
      unfold Record.many
      cases hr : a.related? property with
      | none => rfl
      | some r =>
        cases r with
        | one t => rfl
        | many ts => exact (h ts hr).elim
    rw [hmany, Record.many, related?_relate, if_pos rfl]
    rfl

theorem initMany_ok (hwf : s.WF) (source : Nat) (property : String) :
    (s.initMany source property).WF ∧ s.Extends (s.initMany source property) := by
  refine ⟨wf_update hwf (keeps_initMany property) fun a ha p r hr => ?_,
    extends_update (keeps_initMany property) source⟩
  simp only [Record.initMany] at hr
  split at hr
  · exact hwf.linked ha hr
  · rw [related?_relate] at hr
    split at hr
    · cases hr; exact fun t ht => (List.not_mem_nil ht).elim
    · exact hwf.linked ha hr

theorem WF.many_lt (hwf : s.WF) {i : Nat} {a : Record} (ha : s.get? i = some a) {property : String}
    {t : Nat} (ht : t ∈ a.many property) : t < s.size := by
  unfold Record.many at ht
  cases hr : a.related? property with
  | none => rw [hr] at ht; exact (List.not_mem_nil ht).elim
  | some r =>
    rw [hr] at ht
    cases r with
    | one t' => exact (List.not_mem_nil ht).elim
    | many ts => exact hwf.linked ha hr t ht

theorem linkMany_ok (hwf : s.WF) {source target : Nat} {property : String} {new : Bool}
    (htarget : target < s.size) (h : s.linkMany source property target = (new, s')) :
    s'.WF ∧ s.Extends s' := by
  unfold linkMany at h
  split at h
  · cases h; exact ⟨hwf, Extends.refl s⟩
  · rename_i a ha
    dsimp only at h
    rw [many_initMany] at h
    split at h <;> cases h
    · exact initMany_ok hwf source property
    · refine ⟨wf_relate hwf fun t ht => ?_, extends_update (keeps_relate _ _) source⟩
      rcases List.mem_append.1 ht with ht | ht
      · exact hwf.many_lt ha ht
      · rw [List.mem_singleton.1 ht]; exact htarget

theorem linkOne_ok (hwf : s.WF) {source target : Nat} {property : String} {previous : Option Nat}
    (htarget : target < s.size) (h : s.linkOne source property target = (previous, s')) :
    s'.WF ∧ s.Extends s' := by
  unfold linkOne at h
  split at h <;> cases h
  · exact ⟨hwf, Extends.refl s⟩
  · refine ⟨wf_relate hwf fun t ht => ?_, extends_update (keeps_relate _ _) source⟩
    rw [List.mem_singleton.1 ht]
    exact htarget

end ObjectStore

end GraphLoad
