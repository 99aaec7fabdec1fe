/-
Stores in which every object is told from all others by its entity and its key. Looking up a key that a
column can hold is then the inverse of reading the entity and the key of a number; a load finds the number
of the key or gives the key the next number, and otherwise writes fields.
-/
import GraphLoad.Proofs.Object.Facts
import GraphLoad.Proofs.Object.Hashing

namespace GraphLoad

namespace ObjectStore

variable {s s' : ObjectStore} {entity : String} {key : Key} {i : Nat} {x : Identity}

/-- Objects that their entities and keys tell apart, the keys of values that a column can hold. -/
structure Apart (s : ObjectStore) : Prop where
  regular : ∀ {i a}, s.get? i = some a → a.key.Regular
  distinct : ∀ {i j x}, s.identity? i = some x → s.identity? j = some x → i = j

theorem apart_empty : ObjectStore.empty.Apart := by
  refine ⟨fun h => ?_, fun h => ?_⟩ <;> cases h

/-- So are the objects of every run, in which moreover no key is null. -/
theorem WF.apart (hwf : s.WF) : s.Apart := ⟨fun h => (hwf.keyed h).1, identity?_inj hwf⟩

/-- What has the same objects tells them apart as well. -/
theorem Apart.congr (h : s.Apart) (hsame : ∀ i, s'.identity? i = s.identity? i) : s'.Apart := by
  refine ⟨fun {i b} hb => ?_, fun {i j x} hi hj => ?_⟩
  · obtain ⟨a, ha, heq⟩ := identity?_eq_some.1 ((hsame i).symm.trans (identity?_eq_some.2 ⟨b, hb, rfl⟩))
    rw [← (Prod.mk.inj heq).2]
    exact h.regular ha
  · rw [hsame] at hi hj
    exact h.distinct hi hj

/-! ## Looking up -/

theorem identity?_of_find? (h : s.find? entity key = some i) : s.identity? i = some (entity, key) := by
  obtain ⟨a, ha, hfor⟩ := find?_some h
  obtain ⟨rfl, hmeets⟩ := Record.isFor_iff.1 hfor
  rw [← Key.eq_of_meets hmeets]
  exact identity?_eq_some.2 ⟨a, ha, rfl⟩

/-- A key is found where it stands. -/
theorem Apart.find?_eq_some (h : s.Apart) (hkey : key.Regular) :
    s.find? entity key = some i ↔ s.identity? i = some (entity, key) := by
  refine ⟨identity?_of_find?, fun hi => ?_⟩
  cases hfind : s.find? entity key with
  | some j => rw [h.distinct (identity?_of_find? hfind) hi]
  | none =>
    obtain ⟨a, ha, heq⟩ := identity?_eq_some.1 hi
    obtain ⟨rfl, rfl⟩ := Prod.mk.inj heq
    have hfor := find?_none hfind ha
    rw [Record.isFor_iff.2 ⟨rfl, Key.meets_refl hkey⟩] at hfor
    cases hfor

theorem Apart.find?_eq_none (h : s.Apart) (hkey : key.Regular) :
    s.find? entity key = none ↔ ∀ i, s.identity? i ≠ some (entity, key) := by
  rw [Option.eq_none_iff_forall_ne_some]
  exact forall_congr' fun i => not_congr (h.find?_eq_some hkey)

/-! ## Loading -/

/-- After a load its number is that of its entity and its key, and all others are what they were. -/
theorem identity?_load (s : ObjectStore) (entity : String) (key : Key)
    (values : List (String × Value)) (i : Nat) :
    (s.load entity key values).2.identity? i =
      if i = (s.load entity key values).1 then some (entity, key) else s.identity? i := by
  split
  · rename_i heq
    obtain ⟨a, ha, hentity, hkey⟩ := s.loaded_load entity key values
    rw [heq, identity?_eq_some.2 ⟨a, ha, rfl⟩, hentity, hkey.elim id Key.eq_of_meets]
  · rename_i hne
    rw [identity?, get?_load, if_neg hne, ← identity?]

theorem Apart.load (h : s.Apart) (hkey : key.Regular) (values : List (String × Value)) :
    (s.load entity key values).2.Apart := by
  -- no other object was one of the entity and the key that are loaded
  have hother : ∀ j, s.identity? j = some (entity, key) → j = (s.load entity key values).1 := by
    intro j hj
    rw [ObjectStore.load, (h.find?_eq_some hkey).2 hj]
  refine ⟨fun {i a} ha => ?_, fun {i j x} hi hj => ?_⟩
  · rcases load_made rfl ha with ⟨b, hb, -, heq⟩ | ⟨-, heq⟩
    · rw [heq]
      exact h.regular hb
    · rw [heq]
      exact hkey
  · rw [identity?_load] at hi hj
    split at hi <;> split at hj
    · rename_i hi' hj'
      rw [hi', hj']
    · rename_i hi' hj'
      cases hi
      exact (hj' (hother j hj)).elim
    · rename_i hi' hj'
      cases hj
      exact (hi' (hother i hi)).elim
    · exact h.distinct hi hj

/-- After a load its key is found, and of all others those that were found before. -/
theorem Apart.find?_load_eq_none (h : s.Apart) (hkey : key.Regular) (values : List (String × Value))
    {k : Key} (hk : k.Regular) : (s.load entity key values).2.find? entity k = none ↔
      k ≠ key ∧ s.find? entity k = none := by
  rw [(h.load hkey values).find?_eq_none hk, h.find?_eq_none hk]
  constructor
  · intro hnone
    refine ⟨fun heq => ?_, fun i hi => ?_⟩
    · refine hnone (s.load entity key values).1 ?_
      rw [identity?_load, if_pos rfl, heq]
    · exact hnone i (identity?_extends (extends_load s entity key values) hi)
  · rintro ⟨hne, hnone⟩ i hi
    rw [identity?_load] at hi
    split at hi
    · exact hne (Prod.mk.inj (Option.some.inj hi)).2.symm
    · exact hnone i hi

end ObjectStore

end GraphLoad
