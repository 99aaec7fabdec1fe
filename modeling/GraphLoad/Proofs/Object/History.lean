/-
The history of a store. Objects are loaded, and their properties begun and linked, in any order and also
under numbers that have no object. Main statement: numbers are given out one after the other and for good,
a key that feeds alike finds the number that every load of it was given, and the fields of an object are
what the loads of it have supplied, in the order in which they first came and each with its last value. A
load leaves properties alone, and a link everything but one property of its source.
-/
import GraphLoad.Proofs.Object.Apart
import GraphLoad.Proofs.Object.Reloading

namespace GraphLoad

/-! ## Calls -/

/-- What is asked of a store of objects. -/
inductive StoreCall
  | load (entity : String) (key : Key) (values : List (String × Value))
  | initMany (source : Nat) (property : String)
  | linkMany (source : Nat) (property : String) (target : Nat)
  | linkOne (source : Nat) (property : String) (target : Nat)

/-- What a load has supplied, and the number that it was given. -/
structure Supply where
  id : Nat
  entity : String
  key : Key
  values : List (String × Value)

namespace StoreCall

/-- The store after a call. -/
def act (s : ObjectStore) : StoreCall → ObjectStore
  | .load entity key values => (s.load entity key values).2
  | .initMany source property => s.initMany source property
  | .linkMany source property target => (s.linkMany source property target).2
  | .linkOne source property target => (s.linkOne source property target).2

/-- What a call supplies to an object. -/
def supply? (s : ObjectStore) : StoreCall → Option Supply
  | .load entity key values => some ⟨(s.load entity key values).1, entity, key, values⟩
  | _ => none

/-- The number that a call is about: that of the object it loads, or that of its source. -/
def object (s : ObjectStore) : StoreCall → Nat
  | .load entity key values => (s.load entity key values).1
  | .initMany source _ => source
  | .linkMany source .. => source
  | .linkOne source .. => source

/-- Whether a call is a load. -/
def isLoad : StoreCall → Bool
  | .load .. => true
  | _ => false

/-- A call with a key that a column can hold. -/
def Regular : StoreCall → Prop
  | .load _ key _ => key.Regular
  | _ => True

end StoreCall

namespace ObjectStore

/-- The store after some calls. -/
def after (s : ObjectStore) (calls : List StoreCall) : ObjectStore := calls.foldl StoreCall.act s

/-- What some calls have supplied, one after the other. -/
def supplies (s : ObjectStore) : List StoreCall → List Supply
  | [] => []
  | c :: calls => (c.supply? s).toList ++ supplies (c.act s) calls

end ObjectStore

/-- All that was supplied to the object of a number, in order. -/
def suppliedTo (history : List Supply) (i : Nat) : List (String × Value) :=
  (history.filter fun a => a.id = i).flatMap Supply.values

theorem suppliedTo_snoc (history : List Supply) (a : Supply) (i : Nat) :
    suppliedTo (history ++ [a]) i = suppliedTo history i ++ if a.id = i then a.values else [] := by
  unfold suppliedTo
  rw [List.filter_append, List.flatMap_append]
  by_cases h : a.id = i <;> simp [h]

/-! ## What a call leaves alone -/

/-- What a call leaves as it is: all objects but one; of this one the entity and the key; if it is a load,
all properties, and a new object has none; and otherwise every field. -/
structure StoreCall.LeavesAlone (c : StoreCall) (s : ObjectStore) : Prop where
  others : ∀ i, i ≠ c.object s → (c.act s).get? i = s.get? i
  identities : s.Extends (c.act s)
  relations : c.isLoad = true → ∀ i a, (c.act s).get? i = some a →
    a.relations = ((s.get? i).map Record.relations).getD .empty
  fields : c.isLoad = false → (c.act s).size = s.size ∧ ∀ i a, s.get? i = some a →
    ∃ b, (c.act s).get? i = some b ∧ b.fields = a.fields

namespace StoreCall

variable {s : ObjectStore}

/-- A call that is no load is a write to a property of its source. -/
theorem act_link {c : StoreCall} (h : c.isLoad = false) :
    ∃ w, c.act s = s.write w ∧ w.object = c.object s ∧ w.values = [] := by
  cases c with
  | load entity key values => cases h
  | initMany source property =>
    exact ⟨.collect source property none, ObjectStore.related_many s source property none, rfl, rfl⟩
  | linkMany source property target =>
    exact ⟨.collect source property (some target), ObjectStore.related_many s source property (some target),
      rfl, rfl⟩
  | linkOne source property target =>
    exact ⟨.point source property target, ObjectStore.related_one s source property target, rfl, rfl⟩

theorem leavesAlone_link {c : StoreCall} (h : c.isLoad = false) : c.LeavesAlone s := by
  obtain ⟨w, hact, hobject, hvalues⟩ := act_link (s := s) h
  constructor
  case others =>
    intro i hi
    rw [hact, ObjectStore.get?_write]
    cases s.get? i with
    | none => rfl
    | some a =>
      rw [Option.map_some, Write.step, if_neg]
      rw [hobject]
      exact Ne.symm hi
  case identities =>
    rw [hact]
    exact ObjectStore.extends_writeAll s [w]
  case relations => exact fun hload => by rw [h] at hload; cases hload
  case fields =>
    refine fun _ => ⟨by rw [hact]; exact ObjectStore.size_update .., fun i a ha => ?_⟩
    rw [hact, ObjectStore.get?_write, ha]
    refine ⟨_, rfl, ?_⟩
    rw [Write.fields_step, hvalues, ite_self]
    rfl

theorem leavesAlone_load (s : ObjectStore) (entity : String) (key : Key)
    (values : List (String × Value)) : (load entity key values).LeavesAlone s := by
  constructor
  case others =>
    intro i hi
    exact (ObjectStore.get?_load s entity key values i).trans (if_neg hi)
  case identities => exact ObjectStore.extends_load s entity key values
  case relations =>
    intro _ i a ha
    rw [show (load entity key values).act s = (s.load entity key values).2 from rfl,
      ObjectStore.get?_load] at ha
    split at ha
    · cases ha
      cases s.get? i <;> rfl
    · rw [ha]
      rfl
  case fields => exact fun h => nomatch h

theorem leavesAlone (c : StoreCall) (s : ObjectStore) : c.LeavesAlone s := by
  cases c with
  | load entity key values => exact leavesAlone_load s entity key values
  | _ => exact leavesAlone_link rfl

end StoreCall

/-! ## What a store records -/

namespace ObjectStore

variable {s : ObjectStore} {history : List Supply}

/-- A store that records a history of loads: numbers in the order in which they were first given, every
supply under the number of its entity and its key, and all that was supplied to a number as its fields. -/
structure Recorded (history : List Supply) (s : ObjectStore) : Prop where
  apart : s.Apart
  numbers : (history.map Supply.id).eraseDups = List.range s.size
  identities : ∀ a ∈ history, s.identity? a.id = some (a.entity, a.key)
  fields : ∀ i r, s.get? i = some r → r.fields = .ofList (suppliedTo history i)

theorem recorded_empty : empty.Recorded [] :=
  ⟨apart_empty, rfl, fun _ ha => (nomatch ha), fun _ _ h => (nomatch h)⟩

/-- A number that was never given was supplied nothing. -/
theorem Recorded.suppliedTo_size (h : s.Recorded history) : suppliedTo history s.size = [] := by
  have hnone : history.filter (fun a => a.id = s.size) = [] := by
    refine List.filter_eq_nil_iff.2 fun a ha heq => ?_
    have hlt := identity?_lt (h.identities a ha)
    rw [of_decide_eq_true heq] at hlt
    exact Nat.lt_irrefl _ hlt
  rw [suppliedTo, hnone, List.flatMap_nil]

theorem Recorded.load (h : s.Recorded history) {entity : String} {key : Key} (hkey : key.Regular)
    (values : List (String × Value)) : (s.load entity key values).2.Recorded
      (history ++ [⟨(s.load entity key values).1, entity, key, values⟩]) := by
  constructor
  case apart => exact h.apart.load hkey values
  case numbers =>
    rw [List.map_append, List.map_singleton, eraseDups_snoc, h.numbers, size_load]
    rcases load_cases s entity key values with ⟨id, hfind, hload⟩ | ⟨hfind, hload⟩
    · rw [hload, hfind, if_pos (List.mem_range.2 (find?_some hfind).lt)]
      rfl
    · rw [hload, hfind, if_neg (mt List.mem_range.1 (Nat.lt_irrefl _))]
      exact List.range_succ.symm
  case identities =>
    intro a ha
    rw [identity?_load]
    rcases List.mem_append.1 ha with ha | ha
    · split
      · rename_i heq
        -- the number was given before, so the key was found there
        have hold := h.identities a ha
        have hnew := (identity?_load s entity key values a.id).trans (if_pos heq)
        rw [identity?_extends (extends_load s entity key values) hold] at hnew
        exact hnew.symm
      · exact h.identities a ha
    · rw [List.mem_singleton.1 ha, if_pos rfl]
  case fields =>
    intro i r hr
    rw [suppliedTo_snoc, OrderedMap.ofList, OrderedMap.insertMany_append]
    rw [get?_load] at hr
    split at hr
    · rename_i heq
      cases hr
      rw [if_pos heq.symm]
      refine congrArg (OrderedMap.insertMany · values) ?_
      cases hi : s.get? i with
      | some a => exact h.fields i a hi
      | none =>
        -- a new number is the next one
        have hsize : i = s.size := by
          rcases load_cases s entity key values with ⟨id, hfind, hload⟩ | ⟨-, hload⟩
          · obtain ⟨a, ha, -⟩ := find?_some hfind
            rw [heq, hload, ha] at hi
            cases hi
          · rw [heq, hload]
        rw [hsize, h.suppliedTo_size]
        rfl
    · rename_i hne
      rw [if_neg (Ne.symm hne)]
      exact h.fields i r hr

/-- Every call records what it supplies. -/
theorem Recorded.act (h : s.Recorded history) {c : StoreCall} (hc : c.Regular) :
    (c.act s).Recorded (history ++ (c.supply? s).toList) := by
  cases hload : c.isLoad with
  | true =>
    cases c with
    | load entity key values => exact h.load hc values
    | _ => cases hload
  | false =>
    have hnothing : c.supply? s = none := by cases c <;> first | rfl | cases hload
    obtain ⟨w, hact, -, -⟩ := StoreCall.act_link (s := s) hload
    obtain ⟨hsize, hfields⟩ := (c.leavesAlone s).fields hload
    rw [hnothing, Option.toList_none, List.append_nil]
    have hsame : ∀ i, (c.act s).identity? i = s.identity? i := by
      rw [hact]
      exact identity?_write s w
    refine ⟨h.apart.congr hsame, by rw [hsize]; exact h.numbers, fun a ha => ?_, fun i r hr => ?_⟩
    · rw [hsame]
      exact h.identities a ha
    · obtain ⟨a, ha⟩ := get?_of_lt (hsize ▸ get?_lt hr)
      obtain ⟨b, hb, hsame⟩ := hfields i a ha
      rw [hr] at hb
      cases hb
      rw [hsame]
      exact h.fields i a ha

theorem Recorded.after (h : s.Recorded history) {calls : List StoreCall}
    (hcalls : ∀ c ∈ calls, c.Regular) :
    (s.after calls).Recorded (history ++ s.supplies calls) := by
  induction calls generalizing s history with
  | nil => rwa [supplies, List.append_nil]
  | cons c calls ih =>
    rw [supplies, ← List.append_assoc]
    exact ih (h.act (hcalls c (List.mem_cons_self ..))) fun d hd =>
      hcalls d (List.mem_cons_of_mem _ hd)

/-- Whatever is called, objects stay told apart. -/
theorem apart_after {calls : List StoreCall} (hcalls : ∀ c ∈ calls, c.Regular) :
    (empty.after calls).Apart :=
  (recorded_empty.after hcalls).apart

/-- A store that remembers a history of loads. Numbers were given one after the other, each to one entity
and one key for good; a key is found under the number that every load of a key that is the same and feeds
alike was given, and not found if there was none; every field of an object has the value that was supplied
last, and the fields stand in the order in which they were first supplied. -/
structure Remembers (s : ObjectStore) (history : List Supply) : Prop where
  numbers : (history.map Supply.id).eraseDups = List.range s.size
  kept : ∀ a ∈ history, ∃ r, s.get? a.id = some r ∧ r.entity = a.entity ∧ r.key = a.key
  told : ∀ a ∈ history, ∀ b ∈ history, a.id = b.id ↔
    a.entity = b.entity ∧ a.key.sameAs b.key = true ∧ a.key.feed = b.key.feed
  found : ∀ a ∈ history, ∀ key : Key, a.key.sameAs key = true → a.key.feed = key.feed →
    s.find? a.entity key = some a.id
  zeroFree : ∀ a ∈ history, a.key.ZeroFree → (∀ key : Key, a.key.sameAs key = true →
    s.find? a.entity key = some a.id) ∧
      ∀ b ∈ history, a.entity = b.entity → a.key.sameAs b.key = true → a.id = b.id
  unknown : ∀ entity (key : Key), (∀ a ∈ history, a.entity = entity → a.key.sameAs key = false) →
    s.find? entity key = none
  values : ∀ i r field, s.get? i = some r → r.fields.get? field =
    (((suppliedTo history i).filter fun p => p.1 = field).getLast?).map Prod.snd
  order : ∀ i r, s.get? i = some r → r.fields.keys = ((suppliedTo history i).map Prod.fst).eraseDups

/-- In a store that records its loads two of them were given one number exactly if they were of one
entity and of one key. -/
theorem Recorded.id_eq_iff (h : s.Recorded history) {a b : Supply} (ha : a ∈ history)
    (hb : b ∈ history) : a.id = b.id ↔ a.entity = b.entity ∧ a.key = b.key := by
  have hida := h.identities a ha
  have hidb := h.identities b hb
  constructor
  · intro heq
    rw [heq, hidb] at hida
    exact Prod.mk.inj (Option.some.inj hida.symm)
  · rintro ⟨hentity, hkey⟩
    rw [hentity, hkey] at hida
    exact h.apart.distinct hida hidb

theorem Recorded.remembers (h : s.Recorded history) : s.Remembers history := by
  have hregular : ∀ a ∈ history, a.key.Regular := by
    intro a ha
    obtain ⟨r, hr, heq⟩ := identity?_eq_some.1 (h.identities a ha)
    rw [← (Prod.mk.inj heq).2]
    exact h.apart.regular hr
  have hfound : ∀ a ∈ history, s.find? a.entity a.key = some a.id := fun a ha =>
    (h.apart.find?_eq_some (hregular a ha)).2 (h.identities a ha)
  constructor
  case numbers => exact h.numbers
  case kept =>
    intro a ha
    obtain ⟨r, hr, heq⟩ := identity?_eq_some.1 (h.identities a ha)
    exact ⟨r, hr, Prod.mk.inj heq⟩
  case told =>
    intro a ha b hb
    rw [h.id_eq_iff ha hb, ← Key.meets_iff]
    refine and_congr_right fun _ => ⟨fun heq => ?_, Key.eq_of_meets⟩
    rw [heq]
    exact Key.meets_refl (hregular b hb)
  case found =>
    intro a ha key hsame hfeed
    rw [← Key.eq_of_meets (Key.meets_iff.2 ⟨hsame, hfeed⟩)]
    exact hfound a ha
  case zeroFree =>
    refine fun a ha hzero => ⟨fun key hsame => ?_, fun b hb hentity hsame => ?_⟩
    · rw [← Key.eq_of_sameAs hsame hzero]
      exact hfound a ha
    · exact (h.id_eq_iff ha hb).2 ⟨hentity, Key.eq_of_sameAs hsame hzero⟩
  case unknown =>
    intro entity key hnone
    refine Option.eq_none_iff_forall_ne_some.2 fun i hi => ?_
    obtain ⟨r, hr, hfor⟩ := find?_some hi
    obtain ⟨rfl, hmeets⟩ := Record.isFor_iff.1 hfor
    -- the number was given to a load, which had the key of its object
    have hmem : i ∈ history.map Supply.id := by
      rw [← List.mem_eraseDups, h.numbers]
      exact List.mem_range.2 (get?_lt hr)
    obtain ⟨a, ha, rfl⟩ := List.mem_map.1 hmem
    have hidentity := (h.identities a ha).symm.trans (identity?_eq_some.2 ⟨r, hr, rfl⟩)
    obtain ⟨hentity, hkey⟩ := Prod.mk.inj (Option.some.inj hidentity)
    have hsame := hnone a ha hentity
    rw [hkey, (Key.meets_iff.1 hmeets).1] at hsame
    cases hsame
  case values =>
    intro i r field hr
    rw [h.fields i r hr, OrderedMap.get?_ofList]
  case order =>
    intro i r hr
    rw [h.fields i r hr, OrderedMap.keys_ofList]

/-- Whatever loads and links are made from an empty store on, in any order and also to numbers that have no
object: the store remembers its loads, and no call has touched what it leaves alone. -/
theorem history_remembered {calls : List StoreCall} (hcalls : ∀ c ∈ calls, c.Regular) :
    (empty.after calls).Remembers (empty.supplies calls) ∧
      ∀ pre c post, calls = pre ++ c :: post → c.LeavesAlone (empty.after pre) :=
  ⟨(recorded_empty.after hcalls).remembers, fun pre c _ _ => c.leavesAlone (empty.after pre)⟩

instance : DecidablePred StoreCall.Regular := fun c =>
  match c with
  | .load _ key _ => inferInstanceAs (Decidable (∀ v ∈ key.parts, v.Regular))
  | .initMany .. => .isTrue trivial
  | .linkMany .. => .isTrue trivial
  | .linkOne .. => .isTrue trivial

/-- A reader who comes back: a book is loaded, linked to an object that is not there yet, loaded again with
another column, and found under its number. -/
theorem history_remembered_reader :
    let calls : List StoreCall := [.load "BOOK" ⟨[.int 7]⟩ [("id", .int 7), ("title", .str "M")],
      .linkMany 3 "readers" 0, .load "READER" ⟨[.str "ann"]⟩ [("name", .str "ann")],
      .linkMany 1 "books" 0, .load "BOOK" ⟨[.int 7]⟩ [("year", .int 1851), ("title", .str "Moby")]]
    (∀ c ∈ calls, c.Regular) ∧ (empty.supplies calls).map Supply.id = [0, 1, 0] ∧
      ((empty.after calls).get? 0).map (·.fields.entries) =
        some [("id", .int 7), ("title", .str "Moby"), ("year", .int 1851)] ∧
      (empty.after calls).Remembers (empty.supplies calls) := by
  intro calls
  have hcalls : ∀ c ∈ calls, c.Regular := by decide +kernel
  exact ⟨hcalls, rfl, rfl, (history_remembered hcalls).1⟩

/-- A key is not found under the number that an equal key was given, if the two are zeros of documents
that differ in their sign. -/
theorem equal_key_unfound : ¬ ∀ calls : List StoreCall, (∀ c ∈ calls, c.Regular) →
    ∀ a ∈ empty.supplies calls, ∀ key : Key, a.key.sameAs key = true →
      (empty.after calls).find? a.entity key = some a.id := by
  intro h
  have hfound := h [.load "M" ⟨[.json (.float ⟨0⟩)]⟩ []] (by decide +kernel)
    ⟨0, "M", ⟨[.json (.float ⟨0⟩)]⟩, []⟩ (List.mem_singleton_self _)
    ⟨[.json (.float ⟨0x8000000000000000⟩)]⟩ (by decide +kernel)
  have hnone : (empty.after [.load "M" ⟨[.json (.float ⟨0⟩)]⟩ []]).find? "M"
      ⟨[.json (.float ⟨0x8000000000000000⟩)]⟩ = none := by decide +kernel
  rw [hnone] at hfound
  cases hfound

end ObjectStore

end GraphLoad
