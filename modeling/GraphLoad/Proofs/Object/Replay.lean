/-
Writes made again. What hydration does to the objects there are is a list of writes: fields are given
values, collections objects, and properties for one object the object they are to hold. Main
statement: such a list made a second time changes nothing, in whatever order its writes come and
whichever of them share a property; of what a write can do only the first making of a list is seen.
-/
import GraphLoad.Proofs.Object.Retention
import GraphLoad.Proofs.OrderedMap

namespace GraphLoad

/-! ## Steps taken twice -/

theorem foldl_of_fixed {σ α : Type} {f : σ → α → σ} {xs : List α} {s : σ}
    (h : ∀ x ∈ xs, f s x = s) : xs.foldl f s = s := by
  induction xs with
  | nil => rfl
  | cons x xs ih =>
    rw [List.foldl_cons, h x (List.mem_cons_self ..)]
    exact ih fun y hy => h y (List.mem_cons_of_mem _ hy)

/-- What a list of steps leaves each of them leaves as it is, if each does nothing twice and lets stay
what the others have done. -/
theorem fixed_of_foldl {σ α : Type} {f : σ → α → σ} {xs : List α}
    (hself : ∀ x ∈ xs, ∀ s, f (f s x) x = f s x)
    (hkeep : ∀ x ∈ xs, ∀ y ∈ xs, ∀ s, f s x = s → f (f s y) x = f s y) (s : σ) :
    ∀ x ∈ xs, f (xs.foldl f s) x = xs.foldl f s := by
  suffices hsuffices : ∀ ys, ys ⊆ xs → ∀ s, (∀ x ∈ xs, f s x = s ∨ x ∈ ys) →
      ∀ x ∈ xs, f (ys.foldl f s) x = ys.foldl f s from
    hsuffices xs (List.Subset.refl xs) s fun x hx => .inr hx
  intro ys
  induction ys with
  | nil => exact fun _ s hs x hx => (hs x hx).resolve_right List.not_mem_nil
  | cons y ys ih =>
    intro hys s hs
    refine ih (List.subset_of_cons_subset hys) (f s y) fun x hx => ?_
    have hy := hys (List.mem_cons_self ..)
    rcases hs x hx with hfixed | hmem
    · exact .inl (hkeep x hx y hy s hfixed)
    · rcases List.mem_cons.1 hmem with rfl | hmem
      · exact .inl (hself x hx s)
      · exact .inr hmem

/-- A list of steps does nothing the second time if one of them forgets all that was before it, or if
each does nothing twice and lets stay what the others have done. -/
theorem foldl_twice {σ α : Type} {f : σ → α → σ} {xs : List α}
    (h : (∃ x ∈ xs, ∀ s s', f s x = f s' x) ∨
      ((∀ x ∈ xs, ∀ s, f (f s x) x = f s x) ∧
        ∀ x ∈ xs, ∀ y ∈ xs, ∀ s, f s x = s → f (f s y) x = f s y)) (s : σ) :
    xs.foldl f (xs.foldl f s) = xs.foldl f s := by
  rcases h with ⟨x, hx, hforgets⟩ | ⟨hself, hkeep⟩
  · obtain ⟨pre, post, rfl⟩ := List.append_of_mem hx
    rw [List.foldl_append, List.foldl_cons, List.foldl_append, List.foldl_cons]
    rw [hforgets _ (pre.foldl f s)]
  · exact foldl_of_fixed (fixed_of_foldl hself hkeep s)

/-! ## Values written under keys -/

namespace OrderedMap

variable {κ ν : Type} [DecidableEq κ]

/-- Pairs that are inserted again change neither a value nor the order of the keys. -/
theorem insertMany_twice (m : OrderedMap κ ν) (pairs : List (κ × ν)) :
    (m.insertMany pairs).insertMany pairs = m.insertMany pairs := by
  refine eq_of_keys (keys_insertMany_of_mem fun p hp => ?_) fun k => ?_
  · exact mem_keys_insertMany.2 (.inl (List.mem_map_of_mem hp))
  · rw [get?_insertMany_foldl, get?_insertMany_foldl m]
    refine foldl_twice ?_ _
    by_cases hk : ∃ p ∈ pairs, p.1 = k
    · obtain ⟨p, hp, hkey⟩ := hk
      exact .inl ⟨p, hp, fun _ _ => by rw [if_pos hkey, if_pos hkey]⟩
    · have hother : ∀ p ∈ pairs, ¬ p.1 = k := fun p hp hkey => hk ⟨p, hp, hkey⟩
      refine .inr ⟨fun p hp o => ?_, fun p hp q _ o _ => ?_⟩
      all_goals rw [if_neg (hother p hp)]

end OrderedMap

/-! ## One property -/

namespace Related

/-- The objects of a property that may hold a collection, none if it holds none. -/
def collection (held : Option Related) : List Nat := (held.bind many?).getD []

/-- The collection that a property comes to hold when it is given an object, or none. An object is
listed once. -/
def collect (target : Option Nat) (held : Option Related) : Related :=
  match target with
  | none => .many (collection held)
  | some t => .many (if t ∈ collection held then collection held else collection held ++ [t])

variable {target : Option Nat} {held : Option Related}

theorem collect_eq (target held) : ∃ ts, collect target held = .many ts ∧
    ∀ t, t ∈ ts ↔ t ∈ collection held ∨ target = some t := by
  cases target with
  | none => exact ⟨_, rfl, fun t => by simp⟩
  | some u =>
    refine ⟨_, rfl, fun t => ?_⟩
    rw [Option.some.injEq]
    split
    · rename_i hmem
      exact ⟨.inl, fun h => h.elim id fun heq => heq ▸ hmem⟩
    · rw [List.mem_append, List.mem_singleton, eq_comm (a := t)]

/-- A collection is given nothing new when it is one and has the object. -/
theorem collect_eq_self : some (collect target held) = held ↔
    ∃ ts, held = some (.many ts) ∧ ∀ t, target = some t → t ∈ ts := by
  constructor
  · intro h
    obtain ⟨ts, hts, hmem⟩ := collect_eq target held
    exact ⟨ts, by rw [← h, hts], fun t ht => (hmem t).2 (.inr ht)⟩
  · rintro ⟨ts, rfl, hts⟩
    cases target with
    | none => rfl
    | some t => exact congrArg (fun us => some (many us)) (if_pos (hts t rfl))

end Related

/-! ## Writes -/

theorem Record.eq_of_parts {a b : Record} (hentity : a.entity = b.entity) (hkey : a.key = b.key)
    (hfields : a.fields = b.fields) (hrelations : a.relations = b.relations) : a = b := by
  cases a
  cases b
  simp_all

/-- A write to an object: values for some of its fields, an object for a collection, or none to begin
it with, or the object that a property for one is to hold. -/
inductive Write
  | fields (object : Nat) (values : List (String × Value))
  | collect (object : Nat) (property : String) (target : Option Nat)
  | point (object : Nat) (property : String) (target : Nat)

namespace Write

/-- The object that is written to. -/
def object : Write → Nat
  | .fields object _ => object
  | .collect object .. => object
  | .point object .. => object

/-- What a write makes of its object. -/
def on (w : Write) (a : Record) : Record :=
  match w with
  | .fields _ values => a.refresh values
  | .collect _ property target => a.relate property (Related.collect target (a.related? property))
  | .point _ property target => a.relate property (.one target)

/-- The values that a write gives to fields. -/
def values : Write → List (String × Value)
  | .fields _ values => values
  | _ => []

/-- The property that a write is to. -/
def property? : Write → Option String
  | .fields .. => none
  | .collect _ property _ => some property
  | .point _ property _ => some property

/-- What a write makes of what its object holds under its property. -/
def value (held : Option Related) : Write → Option Related
  | .fields .. => held
  | .collect _ _ target => some (Related.collect target held)
  | .point _ _ target => some (.one target)

/-- The object of a number after a write. -/
def step (i : Nat) (a : Record) (w : Write) : Record := if w.object = i then w.on a else a

/-- What the object of a number holds under a property after a write. -/
def stepUnder (i : Nat) (p : String) (held : Option Related) (w : Write) : Option Related :=
  if w.object = i ∧ w.property? = some p then w.value held else held

variable {w : Write} {ws : List Write} {a : Record} {i : Nat} {p : String}

theorem keeps_on (w : Write) : ObjectStore.Keeps w.on := by
  cases w with
  | fields object values => exact ObjectStore.keeps_refresh values
  | collect object property target => exact fun _ => ⟨rfl, rfl⟩
  | point object property target => exact fun _ => ⟨rfl, rfl⟩

/-! ## One object -/

theorem fields_step : (step i a w).fields =
    a.fields.insertMany (if w.object = i then w.values else []) := by
  unfold step
  split
  · cases w <;> rfl
  · rfl

theorem related?_step : (step i a w).related? p = stepUnder i p (a.related? p) w := by
  unfold step stepUnder
  by_cases hi : w.object = i
  · rw [if_pos hi]
    have hrelate : ∀ q v, (a.relate q v).related? p =
        if w.object = i ∧ some q = some p then some v else a.related? p := by
      intro q v
      rw [ObjectStore.related?_relate]
      by_cases hq : p = q
      · rw [if_pos hq, if_pos ⟨hi, by rw [hq]⟩]
      · rw [if_neg hq, if_neg fun h => hq (Option.some.inj h.2).symm]
    cases w with
    | fields object values => exact (if_neg fun h => nomatch h.2).symm
    | collect object q target =>
      refine (hrelate q _).trans ?_
      by_cases hq : q = p
      · subst hq
        rfl
      · rw [if_neg fun h => hq (Option.some.inj h.2), if_neg fun h => hq (Option.some.inj h.2)]
    | point object q target => exact hrelate q _
  · rw [if_neg hi, if_neg fun h => hi h.1]

theorem keys_step : (step i a w).relations.keys =
    match (if w.object = i then w.property? else none) with
    | some p => if p ∈ a.relations.keys then a.relations.keys else a.relations.keys ++ [p]
    | none => a.relations.keys := by
  unfold step
  split
  · cases w with
    | fields object values => rfl
    | collect object property target => exact OrderedMap.keys_insert ..
    | point object property target => exact OrderedMap.keys_insert ..
  · rfl

/-! ## One object after a list of writes -/

theorem keeps_replay (i : Nat) (ws : List Write) :
    ObjectStore.Keeps fun a => ws.foldl (step i) a := by
  induction ws with
  | nil => exact fun _ => ⟨rfl, rfl⟩
  | cons w ws ih =>
    intro a
    have hfirst : (step i a w).entity = a.entity ∧ (step i a w).key = a.key := by
      unfold step
      split
      · exact w.keeps_on a
      · exact ⟨rfl, rfl⟩
    exact ⟨(ih _).1.trans hfirst.1, (ih _).2.trans hfirst.2⟩

theorem fields_replay (i : Nat) (ws : List Write) (a : Record) : (ws.foldl (step i) a).fields =
    a.fields.insertMany (ws.flatMap fun w => if w.object = i then w.values else []) := by
  induction ws generalizing a with
  | nil => rfl
  | cons w ws ih => rw [List.foldl_cons, ih, fields_step, List.flatMap_cons, OrderedMap.insertMany_append]

theorem related?_replay (i : Nat) (p : String) (ws : List Write) (a : Record) :
    (ws.foldl (step i) a).related? p = ws.foldl (stepUnder i p) (a.related? p) := by
  induction ws generalizing a with
  | nil => rfl
  | cons w ws ih => rw [List.foldl_cons, ih, related?_step, List.foldl_cons]

/-- A property that a list of writes is to is there after them. -/
theorem mem_keys_replay (h : p ∈ a.relations.keys ∨ ∃ w ∈ ws, w.object = i ∧ w.property? = some p) :
    p ∈ (ws.foldl (step i) a).relations.keys := by
  induction ws generalizing a with
  | nil => exact h.resolve_right fun ⟨_, hw, _⟩ => List.not_mem_nil hw
  | cons w ws ih =>
    refine ih ?_
    rcases h with hold | ⟨v, hv, hobject, hproperty⟩
    · left
      rw [keys_step]
      split
      · split
        · exact hold
        · exact List.mem_append_left _ hold
      · exact hold
    · rcases List.mem_cons.1 hv with rfl | hv
      · left
        rw [keys_step, if_pos hobject, hproperty]
        dsimp only
        split
        · assumption
        · exact List.mem_append_right _ (List.mem_singleton_self p)
      · exact .inr ⟨v, hv, hobject, hproperty⟩

/-- Writes to properties that are there leave them in their order. -/
theorem keys_replay (h : ∀ w ∈ ws, w.object = i → ∀ p, w.property? = some p →
    p ∈ a.relations.keys) : (ws.foldl (step i) a).relations.keys = a.relations.keys := by
  induction ws generalizing a with
  | nil => rfl
  | cons w ws ih =>
    have hfirst : (step i a w).relations.keys = a.relations.keys := by
      rw [keys_step]
      by_cases hobject : w.object = i
      · rw [if_pos hobject]
        cases hproperty : w.property? with
        | none => rfl
        | some p => exact if_pos (h w (List.mem_cons_self ..) hobject p hproperty)
      · rw [if_neg hobject]
    rw [List.foldl_cons, ih fun v hv => by rw [hfirst]; exact h v (List.mem_cons_of_mem _ hv), hfirst]

/-- What a property holds after a list of writes it holds after the list is made again: either a write
puts one object there whatever was there before, or all writes are to a collection, and find in it
what they put there. -/
theorem stepUnder_twice (i : Nat) (p : String) (ws : List Write) (held : Option Related) :
    ws.foldl (stepUnder i p) (ws.foldl (stepUnder i p) held) = ws.foldl (stepUnder i p) held := by
  refine foldl_twice ?_ held
  by_cases hpoint : ∃ t, Write.point i p t ∈ ws
  · obtain ⟨t, ht⟩ := hpoint
    refine .inl ⟨_, ht, fun held held' => ?_⟩
    rw [stepUnder, if_pos ⟨rfl, rfl⟩, stepUnder, if_pos ⟨rfl, rfl⟩]
    rfl
  · right
    have hcases : ∀ w ∈ ws, (∀ held, stepUnder i p held w = held) ∨
        ∃ t, ∀ held, stepUnder i p held w = some (Related.collect t held) := by
      intro w hw
      by_cases hhere : w.object = i ∧ w.property? = some p
      · cases w with
        | fields object values => exact nomatch hhere.2
        | collect object property target => exact .inr ⟨target, fun held => if_pos hhere⟩
        | point object property target =>
          obtain ⟨rfl, hproperty⟩ := hhere
          cases hproperty
          exact (hpoint ⟨target, hw⟩).elim
      · exact .inl fun held => if_neg hhere
    refine ⟨fun w hw held => ?_, fun w hw v hv held hfixed => ?_⟩
    · rcases hcases w hw with hsame | ⟨t, ht⟩
      · rw [hsame, hsame]
      · obtain ⟨ts, hts, hmem⟩ := Related.collect_eq t held
        rw [ht, ht]
        exact Related.collect_eq_self.2 ⟨ts, by rw [hts], fun u hu => (hmem u).2 (.inr hu)⟩
    · rcases hcases w hw with hsame | ⟨t, ht⟩
      · rw [hsame]
      · rcases hcases v hv with hsame | ⟨u, hu⟩
        · rw [hsame]
          exact hfixed
        · rw [ht] at hfixed
          obtain ⟨ts, rfl, hts⟩ := Related.collect_eq_self.1 hfixed
          obtain ⟨us, hus, hmem⟩ := Related.collect_eq u (some (.many ts))
          rw [ht, hu]
          exact Related.collect_eq_self.2 ⟨us, by rw [hus], fun x hx => (hmem x).2 (.inl (hts x hx))⟩

/-- An object to which a list of writes was made stays as it is when they are made again. -/
theorem replay_twice (i : Nat) (ws : List Write) (a : Record) :
    ws.foldl (step i) (ws.foldl (step i) a) = ws.foldl (step i) a := by
  have hidentity := keeps_replay i ws (ws.foldl (step i) a)
  have hfields : (ws.foldl (step i) (ws.foldl (step i) a)).fields = (ws.foldl (step i) a).fields := by
    rw [fields_replay, fields_replay i ws a, OrderedMap.insertMany_twice]
  have hrelations : (ws.foldl (step i) (ws.foldl (step i) a)).relations =
      (ws.foldl (step i) a).relations := by
    refine OrderedMap.eq_of_keys (keys_replay fun w hw hobject p hproperty => ?_) fun p => ?_
    · exact mem_keys_replay (.inr ⟨w, hw, hobject, hproperty⟩)
    · show Record.related? _ p = Record.related? _ p
      rw [related?_replay, related?_replay i p ws a, stepUnder_twice]
  exact Record.eq_of_parts hidentity.1 hidentity.2 hfields hrelations

end Write

/-! ## The objects of a store -/

namespace ObjectStore

/-- The store after a write. A write to an object that is not there is lost. -/
def write (s : ObjectStore) (w : Write) : ObjectStore := s.update w.object w.on

/-- The store after a list of writes. -/
def writeAll (s : ObjectStore) (ws : List Write) : ObjectStore := ws.foldl write s

variable {s s' : ObjectStore} {ws : List Write} {i : Nat}

theorem get?_write (s : ObjectStore) (w : Write) (i : Nat) :
    (s.write w).get? i = (s.get? i).map fun a => w.step i a :=
  get?_update ..

theorem identity?_write (s : ObjectStore) (w : Write) (i : Nat) :
    (s.write w).identity? i = s.identity? i :=
  identity?_update w.keeps_on ..

theorem get?_writeAll (s : ObjectStore) (ws : List Write) (i : Nat) :
    (s.writeAll ws).get? i = (s.get? i).map fun a => ws.foldl (Write.step i) a := by
  induction ws generalizing s with
  | nil => exact Option.map_id'.symm
  | cons w ws ih =>
    show ((s.write w).writeAll ws).get? i = _
    rw [ih, get?_write, Option.map_map]
    rfl

theorem writeAll_append (s : ObjectStore) (vs ws : List Write) :
    s.writeAll (vs ++ ws) = (s.writeAll vs).writeAll ws :=
  List.foldl_append ..

theorem extends_writeAll (s : ObjectStore) (ws : List Write) : s.Extends (s.writeAll ws) := by
  intro i a ha
  refine ⟨_, by rw [get?_writeAll, ha]; rfl, ?_⟩
  exact Write.keeps_replay i ws a

theorem eq_of_get? (h : ∀ i, s.get? i = s'.get? i) : s = s' := by
  cases s
  cases s'
  exact congrArg _ (List.ext_getElem? h)

/-- A list of writes made again changes nothing. -/
theorem writeAll_twice (s : ObjectStore) (ws : List Write) :
    (s.writeAll ws).writeAll ws = s.writeAll ws := by
  refine eq_of_get? fun i => ?_
  rw [get?_writeAll, get?_writeAll, Option.map_map]
  exact congrArg (fun f => (s.get? i).map f) (funext fun a => Write.replay_twice i ws a)

theorem size_writeAll (s : ObjectStore) (ws : List Write) : (s.writeAll ws).size = s.size := by
  induction ws generalizing s with
  | nil => rfl
  | cons w ws ih => exact (ih (s.write w)).trans (size_update ..)

/-- A store to which a list of writes was made, all of them to objects that it had. -/
def Written (s : ObjectStore) (ws : List Write) : Prop :=
  ∃ s₀ : ObjectStore, (∀ w ∈ ws, w.object < s₀.size) ∧ s = s₀.writeAll ws

theorem Written.nil (s : ObjectStore) : s.Written [] := ⟨s, nofun, rfl⟩

theorem Written.write {w : Write} (h : s.Written ws) (hw : w.object < s.size) :
    (s.write w).Written (ws ++ [w]) := by
  obtain ⟨s₀, hbound, rfl⟩ := h
  rw [size_writeAll] at hw
  refine ⟨s₀, fun v hv => ?_, (writeAll_append s₀ ws [w]).symm⟩
  rcases List.mem_append.1 hv with hv | hv
  · exact hbound v hv
  · rw [List.mem_singleton.1 hv]
    exact hw

/-- An object that is made later was in nobody's way. -/
theorem Written.append (h : s.Written ws) (r : Record) :
    ObjectStore.Written ⟨s.records ++ [r]⟩ ws := by
  obtain ⟨s₀, hbound, rfl⟩ := h
  refine ⟨⟨s₀.records ++ [r]⟩, fun w hw => ?_, eq_of_get? fun i => ?_⟩
  · exact (extends_append s₀ r).lt (hbound w hw)
  · rw [get?_writeAll]
    rcases Nat.lt_or_ge i s₀.size with hi | hi
    · have hold : ∀ s₁ : ObjectStore, s₁.size = s₀.size →
          ObjectStore.get? ⟨s₁.records ++ [r]⟩ i = s₁.get? i := fun s₁ hs₁ =>
        List.getElem?_append_left (by rw [size] at hs₁; rw [hs₁]; exact hi)
      rw [hold _ (size_writeAll ..), get?_writeAll, hold s₀ rfl]
    · have hnew : ∀ s₁ : ObjectStore, s₁.size = s₀.size →
          ObjectStore.get? ⟨s₁.records ++ [r]⟩ i = [r][i - s₀.size]? := by
        intro s₁ hs₁
        rw [size] at hs₁
        rw [get?, List.getElem?_append_right (by rw [hs₁]; exact hi), hs₁]
      rw [hnew _ (size_writeAll ..), hnew s₀ rfl]
      cases hr : [r][i - s₀.size]? with
      | none => rfl
      | some b =>
        -- no write is to a number beyond the objects there were
        refine congrArg some (foldl_of_fixed fun w hw => ?_).symm
        rw [Write.step, if_neg]
        intro heq
        exact absurd (hbound w hw) (by rw [heq]; exact Nat.not_lt.2 hi)

/-- Making further writes and then all of them again comes to the same as making the further ones. -/
theorem Written.again {vs : List Write} (h : s.Written vs) :
    (s.writeAll ws).writeAll (vs ++ ws) = s.writeAll ws := by
  obtain ⟨s₀, -, rfl⟩ := h
  rw [← writeAll_append s₀ vs ws, writeAll_twice]

end ObjectStore

end GraphLoad
