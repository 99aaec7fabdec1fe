/-
Loading one alias from any store in which objects are told apart. Main statement: rows that have a cell for
every field of the key get, each, no object if the key is null and else the one object of their entity and
their key; the objects are listed in the order of the rows, each where it first came; and the store grows
by the keys that it did not know, in the order in which they first came. Without one of the cells the
loading ends with that cell as the missing one.
-/
import GraphLoad.Proofs.Object.History
import GraphLoad.Proofs.Object.Loading

namespace GraphLoad

open Sql

/-- The object that a row has for an alias; none also if it was not hydrated for it. -/
def Row.object? (row : Row) (aliasName : String) : Option Nat := (row.objects.get? aliasName).join

theorem Row.object?_setObject (row : Row) (aliasName : String) (o : Option Nat) :
    (row.setObject aliasName o).object? aliasName = o := by
  rw [object?, setObject, OrderedMap.get?_insert_self]
  rfl

namespace Entity

variable {e : Entity} {aliasName : String} {row : Row} {rows : List Row} {s s' : ObjectStore}
  {ids : List Nat} {key : Key}

/-! ## Missing cells -/

/-- A key cannot be read without one of its cells, and the first one is what is missed. -/
theorem keyParts_error {fields : List String} {err : LoadError}
    (h : keyParts aliasName row fields = .error err) : ∃ done field rest,
      fields = done ++ field :: rest ∧ (∀ f ∈ done, (row.value? aliasName f).isSome = true) ∧
        row.value? aliasName field = none ∧ err = .missingColumn (label aliasName field) := by
  induction fields with
  | nil => cases h
  | cons field fields ih =>
    unfold keyParts Row.require at h
    cases hvalue : row.value? aliasName field with
    | none =>
      rw [hvalue] at h
      cases h
      exact ⟨[], field, fields, rfl, by simp, hvalue, rfl⟩
    | some v =>
      rw [hvalue] at h
      obtain ⟨done, missing, rest, rfl, hdone, hnone, herr⟩ := ih (except_map_error h)
      refine ⟨field :: done, missing, rest, rfl, fun f hf => ?_, hnone, herr⟩
      rcases List.mem_cons.1 hf with rfl | hf
      · rw [hvalue]
        rfl
      · exact hdone f hf

theorem isSome_of_rowKey (h : e.rowKey row aliasName = .ok key) :
    ∀ field ∈ e.primaryKey, (row.value? aliasName field).isSome = true := by
  intro field hfield
  obtain ⟨v, -, hv⟩ := forall₂_mem_left (rowKey_ok h) field hfield
  rw [hv]
  rfl

/-- Loading ends at the first row whose key cannot be read. -/
theorem loadRows_error {err : LoadError} (h : (e.loadRows aliasName rows s).objects = .error err) :
    ∃ pre row post, rows = pre ++ row :: post ∧ (∀ r ∈ pre, ∃ key, e.rowKey r aliasName = .ok key) ∧
      e.rowKey row aliasName = .error err := by
  induction rows generalizing s with
  | nil => cases h
  | cons row rows ih =>
    have hlater : ∀ {s : ObjectStore} {key : Key}, e.rowKey row aliasName = .ok key →
        (e.loadRows aliasName rows s).objects = .error err → ∃ pre r post,
        row :: rows = pre ++ r :: post ∧ (∀ r ∈ pre, ∃ key, e.rowKey r aliasName = .ok key) ∧
          e.rowKey r aliasName = .error err := by
      intro s key hkey h
      obtain ⟨pre, r, post, rfl, hpre, hr⟩ := ih h
      refine ⟨row :: pre, r, post, rfl, fun q hq => ?_, hr⟩
      rcases List.mem_cons.1 hq with rfl | hq
      · exact ⟨key, hkey⟩
      · exact hpre q hq
    cases hkey : e.rowKey row aliasName with
    | error err' =>
      rw [loadRows, hkey] at h
      cases h
      exact ⟨[], row, rows, rfl, by simp, hkey⟩
    | ok key =>
      cases hnull : key.isNull with
      | true =>
        rw [loadRows_null rows s hkey hnull] at h
        exact hlater hkey h
      | false =>
        cases hload : s.load e.name key (e.rowValues row aliasName) with
        | mk id s₁ =>
          rw [loadRows_keyed rows hkey hnull hload] at h
          exact hlater hkey (except_map_error h)

theorem LoadSteps.keys {rows' : List Row} (h : e.LoadSteps aliasName rows s rows' s' ids) :
    ∀ row ∈ rows, ∃ key, e.rowKey row aliasName = .ok key := by
  induction h with
  | nil => simp
  | null hkey _ _ ih => exact List.forall_mem_cons.2 ⟨⟨_, hkey⟩, ih⟩
  | keyed hkey _ _ _ ih => exact List.forall_mem_cons.2 ⟨⟨_, hkey⟩, ih⟩

/-- Without a cell of a key, the first row that lacks one ends the loading, and the first of its cells that is
not there is what is missed. -/
theorem objectLoad_missing
    (h : ∃ row ∈ rows, ∃ field ∈ e.primaryKey, row.value? aliasName field = none) :
    ∃ pre row post done field rest, rows = pre ++ row :: post ∧
      (∀ r ∈ pre, ∀ f ∈ e.primaryKey, (r.value? aliasName f).isSome = true) ∧
      e.primaryKey = done ++ field :: rest ∧
      (∀ f ∈ done, (row.value? aliasName f).isSome = true) ∧ row.value? aliasName field = none ∧
      (e.objectLoad aliasName rows s).objects = .error (.missingColumn (label aliasName field)) := by
  obtain ⟨row, hrow, field, hfield, hnone⟩ := h
  cases hobjects : (e.objectLoad aliasName rows s).objects with
  | ok ids =>
    -- a list of objects takes a key of every row
    obtain ⟨all, hall, -⟩ := except_map_ok hobjects
    obtain ⟨key, hkey⟩ := (loadRows_steps hall).keys row hrow
    have hsome := isSome_of_rowKey hkey field hfield
    rw [hnone] at hsome
    cases hsome
  | error err =>
    have hrows : (e.loadRows aliasName rows s).objects = .error err := except_map_error hobjects
    obtain ⟨pre, row, post, hsplit, hpre, herror⟩ := loadRows_error hrows
    obtain ⟨done, field, rest, hfields, hdone, hmissing, rfl⟩ :=
      keyParts_error (except_map_error herror)
    refine ⟨pre, row, post, done, field, rest, hsplit, fun r hr => ?_, hfields, hdone, hmissing, rfl⟩
    obtain ⟨key, hkey⟩ := hpre r hr
    exact isSome_of_rowKey hkey

/-! ## The objects that are made -/

/-- The keys under which rows make objects: those that are not null and not found, in the order in which
they first come, each given the next number. -/
structure Makes (e : Entity) (aliasName : String) (rows : List Row) (s s' : ObjectStore)
    (new : List Key) : Prop where
  nodup : new.Nodup
  members : ∀ k, k ∈ new ↔ k.isNull = false ∧ s.find? e.name k = none ∧
    ∃ row ∈ rows, e.rowKey row aliasName = .ok k
  size : s'.size = s.size + new.length
  numbered : ∀ n k, new[n]? = some k → s'.identity? (s.size + n) = some (e.name, k)

variable {new : List Key}

theorem Makes.null (h : e.Makes aliasName rows s s' new) (hkey : e.rowKey row aliasName = .ok key)
    (hnull : key.isNull = true) : e.Makes aliasName (row :: rows) s s' new := by
  refine ⟨h.nodup, fun k => ?_, h.size, h.numbered⟩
  rw [h.members k]
  refine and_congr_right fun hk => and_congr_right fun _ => ⟨fun ⟨r, hr, hrk⟩ =>
    ⟨r, List.mem_cons_of_mem _ hr, hrk⟩, fun ⟨r, hr, hrk⟩ => ?_⟩
  rcases List.mem_cons.1 hr with rfl | hr
  · rw [hkey] at hrk
    cases hrk
    rw [hnull] at hk
    cases hk
  · exact ⟨r, hr, hrk⟩

/-- A row with a key that is found makes nothing; with any other it makes the next object. -/
theorem Makes.keyed (hs : s.Apart) (hregular : ∀ r ∈ row :: rows, r.Regular)
    (hkey : e.rowKey row aliasName = .ok key) (hnull : key.isNull = false)
    (values : List (String × Value))
    (h : e.Makes aliasName rows (s.load e.name key values).2 s' new)
    (hgrows : (s.load e.name key values).2.Extends s') :
    ∃ new', e.Makes aliasName (row :: rows) s s' new' := by
  have hkeyRegular := rowKey_regular (hregular row (List.mem_cons_self ..)) hkey
  have hrows : ∀ k, (∃ r ∈ row :: rows, e.rowKey r aliasName = .ok k) ↔
      key = k ∨ ∃ r ∈ rows, e.rowKey r aliasName = .ok k := by
    intro k
    simp only [List.mem_cons, exists_eq_or_imp, hkey, Except.ok.injEq]
  have hmembers : ∀ k, k ∈ new ↔ k.isNull = false ∧ (k ≠ key ∧ s.find? e.name k = none) ∧
      ∃ r ∈ rows, e.rowKey r aliasName = .ok k := by
    intro k
    rw [h.members]
    refine and_congr_right fun _ => and_congr_left fun ⟨r, hr, hk⟩ => ?_
    exact hs.find?_load_eq_none hkeyRegular values
      (rowKey_regular (hregular r (List.mem_cons_of_mem _ hr)) hk)
  rcases s.load_cases e.name key values with ⟨id, hfind, hload⟩ | ⟨hfind, hload⟩
  · have hsize : (s.load e.name key values).2.size = s.size := by
      rw [ObjectStore.size_load, hfind]
      rfl
    refine ⟨new, h.nodup, fun k => ?_, by rw [h.size, hsize], by rw [← hsize]; exact h.numbered⟩
    rw [hmembers, hrows]
    constructor
    · rintro ⟨hk, ⟨-, hnone⟩, hr⟩
      exact ⟨hk, hnone, .inr hr⟩
    · rintro ⟨hk, hnone, hr⟩
      have hne : key ≠ k := by
        rintro rfl
        rw [hfind] at hnone
        cases hnone
      exact ⟨hk, ⟨hne.symm, hnone⟩, hr.resolve_left hne⟩
  · have hsize : (s.load e.name key values).2.size = s.size + 1 := by
      rw [ObjectStore.size_load, hfind]
      rfl
    refine ⟨key :: new, List.nodup_cons.2 ⟨fun hmem => ?_, h.nodup⟩, fun k => ?_, ?_, ?_⟩
    · exact ((hmembers key).1 hmem).2.1.1 rfl
    · rw [List.mem_cons, hmembers, hrows]
      constructor
      · rintro (rfl | ⟨hk, ⟨-, hnone⟩, hr⟩)
        · exact ⟨hnull, hfind, .inl rfl⟩
        · exact ⟨hk, hnone, .inr hr⟩
      · rintro ⟨hk, hnone, hr⟩
        by_cases heq : key = k
        · exact .inl heq.symm
        · exact .inr ⟨hk, ⟨Ne.symm heq, hnone⟩, hr.resolve_left heq⟩
    · rw [h.size, hsize, List.length_cons]
      omega
    · intro n k hn
      cases n with
      | zero =>
        cases hn
        refine ObjectStore.identity?_extends hgrows ?_
        rw [ObjectStore.identity?_load, hload]
        exact if_pos rfl
      | succ n =>
        have hnumber := h.numbered n k hn
        rw [hsize] at hnumber
        rwa [show s.size + (n + 1) = s.size + 1 + n by omega]

/-- A key without a zero in its documents that makes an object was not known under an equal one. -/
theorem Makes.unknown (h : e.Makes aliasName rows s s' new) (hs : s.Apart) (hk : key ∈ new)
    (hzero : key.ZeroFree) {i : Nat} {a : Record} (ha : s.get? i = some a) (hentity : a.entity = e.name) :
    a.key.sameAs key = false := by
  obtain ⟨-, hfind, -⟩ := (h.members key).1 hk
  refine Bool.eq_false_iff.2 fun hsame => ?_
  rw [Key.sameAs_comm] at hsame
  obtain rfl := Key.eq_of_sameAs hsame hzero
  have hi := ObjectStore.identity?_eq_some.2 ⟨a, ha, rfl⟩
  rw [hentity] at hi
  exact (hs.find?_eq_none (hs.regular ha)).1 hfind i hi

/-- What loading rows does to them and to the store, with the objects of the rows one after the other. -/
structure Fresh (e : Entity) (aliasName : String) (rows : List Row) (s : ObjectStore) (rows' : List Row)
    (s' : ObjectStore) (ids : List Nat) : Prop where
  apart : s'.Apart
  grows : s.Extends s'
  placed : List.Forall₂ (e.Placed aliasName s') rows rows'
  listed : ids = rows'.filterMap (·.object? aliasName)
  makes : ∃ new, e.Makes aliasName rows s s' new

theorem LoadSteps.fresh {rows' : List Row} (h : e.LoadSteps aliasName rows s rows' s' ids)
    (hs : s.Apart) (hregular : ∀ row ∈ rows, row.Regular) : e.Fresh aliasName rows s rows' s' ids := by
  induction h with
  | nil s => exact ⟨hs, .refl s, .nil, rfl, [], .nil, fun k => by simp, rfl, fun n k h => by cases h⟩
  | @null row _ _ _ _ _ key hkey hnull _ ih =>
    have hf := ih hs fun r hr => hregular r (List.mem_cons_of_mem _ hr)
    refine ⟨hf.apart, hf.grows, .cons ⟨key, none, hkey, rfl, .inl ⟨hnull, rfl⟩⟩ hf.placed, ?_,
      hf.makes.imp fun _ hmakes => hmakes.null hkey hnull⟩
    refine hf.listed.trans (List.filterMap_cons_none ?_).symm
    exact Row.object?_setObject row aliasName none
  | @keyed row _ _ s s₁ _ _ key id hkey hnull hload _ ih =>
    have hkeyRegular := rowKey_regular (hregular row (List.mem_cons_self ..)) hkey
    obtain rfl : (s.load e.name key (e.rowValues row aliasName)).2 = s₁ := congrArg Prod.snd hload
    have hapart : (s.load e.name key (e.rowValues row aliasName)).2.Apart := hs.load hkeyRegular _
    have hf := ih hapart fun r hr => hregular r (List.mem_cons_of_mem _ hr)
    have hidentity := s.identity?_load e.name key (e.rowValues row aliasName) id
    rw [if_pos (congrArg Prod.fst hload).symm] at hidentity
    have hstands := ObjectStore.find?_some ((hapart.find?_eq_some hkeyRegular).2 hidentity)
    constructor
    case apart => exact hf.apart
    case grows => exact (s.extends_load e.name key _).trans hf.grows
    case placed =>
      refine .cons ⟨key, some id, hkey, rfl, .inr ⟨hnull, id, rfl, ?_⟩⟩ hf.placed
      exact hstands.extends hf.grows
    case listed =>
      refine (congrArg (id :: ·) hf.listed).trans (List.filterMap_cons_some ?_).symm
      exact Row.object?_setObject row aliasName (some id)
    case makes =>
      obtain ⟨new, hmakes⟩ := hf.makes
      exact hmakes.keyed hs hregular hkey hnull _ hf.grows

/-! ## What a row is given -/

/-- A key is null if all its cells are. -/
theorem isNull_of_rowKey (h : e.rowKey row aliasName = .ok key) :
    key.isNull = true ↔ ∀ field ∈ e.primaryKey, row.value? aliasName field = some .null := by
  rw [Key.isNull, List.all_eq_true]
  constructor
  · intro hnull field hfield
    obtain ⟨v, hv, hvalue⟩ := forall₂_mem_left (rowKey_ok h) field hfield
    have hv := hnull v hv
    cases v with
    | null => exact hvalue
    | _ => cases hv
  · intro hcells v hv
    obtain ⟨field, hfield, hvalue⟩ := forall₂_mem_right (rowKey_ok h) v hv
    rw [hcells field hfield] at hvalue
    cases hvalue
    rfl

end Entity

/-- The one object of an entity and a key. No other one has an equal key that feeds alike, and if no
document of the key has a zero in it, no other one has an equal key. -/
structure ObjectStore.IsObjectOf (s : ObjectStore) (entity : String) (key : Key) (id : Nat) : Prop where
  stands : s.identity? id = some (entity, key)
  alone : ∀ j a, s.get? j = some a → a.entity = entity → a.key.sameAs key = true →
    a.key.feed = key.feed → j = id
  zeroFree : key.ZeroFree → ∀ j a, s.get? j = some a → a.entity = entity →
    a.key.sameAs key = true → j = id

theorem ObjectStore.Apart.isObjectOf {s : ObjectStore} {entity : String} {key : Key} {id : Nat}
    (hs : s.Apart) (h : s.identity? id = some (entity, key)) : s.IsObjectOf entity key id := by
  have hone : ∀ j a, s.get? j = some a → a.entity = entity → a.key = key → j = id := by
    rintro j a ha rfl rfl
    exact hs.distinct (identity?_eq_some.2 ⟨a, ha, rfl⟩) h
  refine ⟨h, fun j a ha hentity hsame hfeed => ?_, fun hzero j a ha hentity hsame => ?_⟩
  · exact hone j a ha hentity (Key.eq_of_meets (Key.meets_iff.2 ⟨hsame, hfeed⟩))
  · rw [Key.sameAs_comm] at hsame
    exact hone j a ha hentity (Key.eq_of_sameAs hsame hzero).symm

namespace Entity

variable {e : Entity} {aliasName : String} {rows : List Row} {s : ObjectStore}

/-- What a row is given for an alias: no object if all cells of its key are null, and else the object of its
key. Its cells and its objects for other aliases are what they were. -/
structure Given (e : Entity) (aliasName : String) (s : ObjectStore) (row row' : Row) : Prop where
  cells : row'.cells = row.cells
  others : ∀ other, other ≠ aliasName → row'.objects.get? other = row.objects.get? other
  none_iff : row'.object aliasName = .ok none ↔
    ∀ field ∈ e.primaryKey, row.value? aliasName field = some .null
  keyed : row'.object aliasName ≠ .ok none → ∃ key id, e.rowKey row aliasName = .ok key ∧
    row'.object aliasName = .ok (some id) ∧ s.IsObjectOf e.name key id

theorem Placed.given {row row' : Row} (h : e.Placed aliasName s row row') (hs : s.Apart) :
    e.Given aliasName s row row' := by
  obtain ⟨key, o, hkey, rfl, ho⟩ := h
  refine ⟨rfl, fun other hother => OrderedMap.get?_insert_of_ne _ hother _, ?_, fun hsome => ?_⟩
  · rw [Row.object_setObject, ← isNull_of_rowKey hkey]
    rcases ho with ⟨hnull, rfl⟩ | ⟨hnull, id, rfl, -⟩ <;> simp [hnull]
  · rw [Row.object_setObject] at hsome ⊢
    rcases ho with ⟨-, rfl⟩ | ⟨-, id, rfl, a, ha, hfor⟩
    · exact (hsome rfl).elim
    · obtain ⟨hentity, hmeets⟩ := Record.isFor_iff.1 hfor
      refine ⟨key, id, hkey, rfl, hs.isObjectOf (ObjectStore.identity?_eq_some.2 ⟨a, ha, ?_⟩)⟩
      rw [hentity, Key.eq_of_meets hmeets]

/-! ## Loading an alias -/

/-- What loading an alias makes of rows and of a store. Every row is given its object; the objects stand in
the order of the rows, each where it first came; and the store keeps its objects and grows by one for each
key that was not known. A key that no document has a zero in was then not known under an equal one
either, nor are two such keys equal. -/
structure Materialises (e : Entity) (aliasName : String) (rows : List Row) (s : ObjectStore)
    (rows' : List Row) (s' : ObjectStore) (ids : List Nat) : Prop where
  given : List.Forall₂ (e.Given aliasName s') rows rows'
  listed : ids = (rows'.filterMap (·.object? aliasName)).eraseDups
  grows : s.Extends s'
  apart : s'.Apart
  makes : ∃ new, e.Makes aliasName rows s s' new ∧ ∀ k ∈ new, k.ZeroFree →
    (∀ i a, s.get? i = some a → a.entity = e.name → a.key.sameAs k = false) ∧
      ∀ k' ∈ new, k.sameAs k' = true → k' = k

/-- Loading an alias into a store whose objects are told apart. If every row has a cell for each field of the
key, the rows are given their objects and these are listed; otherwise the first row without one of them
ends the loading, and the first of its cells that is not there is what is missed. -/
theorem objectLoad_materialises (hs : s.Apart) (hregular : ∀ row ∈ rows, row.Regular) :
    ((∀ row ∈ rows, ∀ field ∈ e.primaryKey, (row.value? aliasName field).isSome = true) →
      ∃ ids, (e.objectLoad aliasName rows s).objects = .ok ids ∧
        e.Materialises aliasName rows s (e.objectLoad aliasName rows s).rows
          (e.objectLoad aliasName rows s).store ids) ∧
    ((∃ row ∈ rows, ∃ field ∈ e.primaryKey, row.value? aliasName field = none) →
      ∃ pre row post done field rest, rows = pre ++ row :: post ∧
        (∀ r ∈ pre, ∀ f ∈ e.primaryKey, (r.value? aliasName f).isSome = true) ∧
        e.primaryKey = done ++ field :: rest ∧
        (∀ f ∈ done, (row.value? aliasName f).isSome = true) ∧ row.value? aliasName field = none ∧
        (e.objectLoad aliasName rows s).objects = .error (.missingColumn (label aliasName field))) := by
  refine ⟨fun hcells => ?_, objectLoad_missing⟩
  obtain ⟨all, hall⟩ := loadRows_total (s := s) hcells
  have hf := (loadRows_steps hall).fresh hs hregular
  obtain ⟨new, hmakes⟩ := hf.makes
  refine ⟨all.eraseDups, ?_, ?_⟩
  · rw [objectLoad, hall]
    rfl
  · constructor
    case given => exact hf.placed.imp fun _ _ hplaced => hplaced.given hf.apart
    case listed => exact congrArg List.eraseDups hf.listed
    case grows => exact hf.grows
    case apart => exact hf.apart
    case makes =>
      refine ⟨new, hmakes, fun k hk hzero => ⟨fun i a ha hentity => ?_, fun k' _ hsame => ?_⟩⟩
      · exact hmakes.unknown hs hk hzero ha hentity
      · exact (Key.eq_of_sameAs hsame hzero).symm

/-- Places on a shelf, each of a room and a number. -/
def place : Entity where
  name := "PLACE"
  table := "place"
  columns := .ofList [("room", "room"), ("number", "number"), ("title", "title")]
  primaryKey := ["room", "number"]
  foreignKeys := .empty
  primaryKey_ne_nil := List.cons_ne_nil "room" ["number"]
  primaryKey_declared := by decide
  foreignKeys_declared := by decide

/-- A place that is known, one that is not and comes twice, a number that is null, and no place at all. -/
theorem objectLoad_materialises_places :
    let known := ObjectStore.empty.after [.load "PLACE" ⟨[.str "A", .int 1]⟩ [("title", .str "Emma")]]
    let rows := [("B", .int 2), ("A", .int 1), ("B", .null), ("B", .int 2)].map fun (room, number) =>
      Row.ofList [("PLACE1:room", .str room), ("PLACE1:number", number)]
    let rows := rows ++ [.ofList [("PLACE1:room", .null), ("PLACE1:number", .null)]]
    known.Apart ∧ (∀ row ∈ rows, row.Regular) ∧
      (∀ row ∈ rows, ∀ field ∈ place.primaryKey, (row.value? "PLACE1" field).isSome = true) ∧
      (place.objectLoad "PLACE1" rows known).objects = .ok [1, 0, 2] ∧
      (place.objectLoad "PLACE1" rows known).store.size = 3 ∧
      ∃ ids, (place.objectLoad "PLACE1" rows known).objects = .ok ids ∧
        place.Materialises "PLACE1" rows known (place.objectLoad "PLACE1" rows known).rows
          (place.objectLoad "PLACE1" rows known).store ids := by
  intro known rows' rows
  have hknown : known.Apart := ObjectStore.apart_after (by decide +kernel)
  have hregular : ∀ row ∈ rows, row.Regular := by decide +kernel
  have hcells : ∀ row ∈ rows, ∀ field ∈ place.primaryKey,
      (row.value? "PLACE1" field).isSome = true := by decide +kernel
  exact ⟨hknown, hregular, hcells, by decide +kernel, by decide +kernel,
    (objectLoad_materialises hknown hregular).1 hcells⟩

/-- Two rows whose keys are equal are given two objects, if the keys are zeros of documents that differ in
their sign. -/
theorem objectLoad_equal_keys_two : ¬ ∀ (e : Entity) (aliasName : String) (rows : List Row)
    (calls : List StoreCall), (∀ c ∈ calls, c.Regular) → (∀ row ∈ rows, row.Regular) →
    ∀ ids, (e.objectLoad aliasName rows (ObjectStore.empty.after calls)).objects = .ok ids →
      ∀ i ∈ ids, ∀ j ∈ ids, ∀ a b,
        (e.objectLoad aliasName rows (ObjectStore.empty.after calls)).store.get? i = some a →
        (e.objectLoad aliasName rows (ObjectStore.empty.after calls)).store.get? j = some b →
        a.key.sameAs b.key = true → i = j := by
  intro h
  have hid := h ⟨"MARK", "mark", .ofList [("id", "id")], ["id"], .empty, single_ne_nil "id",
    by decide, by decide⟩ "MARK1" [.ofList [("MARK1:id", .json (.float ⟨0⟩))],
      .ofList [("MARK1:id", .json (.float ⟨0x8000000000000000⟩))]] [] (by simp)
    (by decide +kernel) [0, 1] (by decide +kernel) 0 (by decide) 1 (by decide) _ _ rfl rfl
    (by decide +kernel)
  cases hid

end Entity

end GraphLoad
