/-
Rows that are met again. The first time a row is loaded its key may make an object; from then on the
key finds that object, so that loading is a write to it. Linking is a list of writes from the start.
Rows are met again as they were or as they were left, with the objects of some aliases.
-/
import GraphLoad.Proofs.Object.Replay
import GraphLoad.Proofs.Object.Retention

namespace GraphLoad

namespace ObjectStore

variable {s s' s₂ : ObjectStore} {entity : String} {key : Key} {id : Nat}

/-! ## Objects that are found again -/

/-- The first object that a key finds stays the first while a store grows. -/
theorem find?_extends (h : s.find? entity key = some id) (hext : s.Extends s') :
    s'.find? entity key = some id := by
  have hkeeps : ∀ i (hi : i < s.records.length), ∃ hi' : i < s'.records.length,
      s'.records[i].isFor entity key = s.records[i].isFor entity key := by
    intro i hi
    obtain ⟨b, hb, hentity, hkey⟩ := hext i _ (List.getElem?_eq_getElem hi)
    obtain ⟨hi', rfl⟩ := List.getElem?_eq_some_iff.1 hb
    exact ⟨hi', by rw [Record.isFor, hentity, hkey]; rfl⟩
  obtain ⟨hid, hfor, hfirst⟩ := List.findIdx?_eq_some_iff_getElem.1 h
  obtain ⟨hid', hsame⟩ := hkeeps id hid
  refine List.findIdx?_eq_some_iff_getElem.2 ⟨hid', hsame.trans hfor, fun j hj => ?_⟩
  obtain ⟨_, hsame⟩ := hkeeps j (Nat.lt_trans hj hid)
  exact fun hother => hfirst j hj (hsame ▸ hother)

/-- Changes to an object that make the same of it make the same of the store. -/
theorem update_congr {f g : Record → Record} {i : Nat} (h : ∀ a, s.get? i = some a → f a = g a) :
    s.update i f = s.update i g := by
  refine eq_of_get? fun j => ?_
  rw [get?_update, get?_update]
  cases ha : s.get? j with
  | none => rfl
  | some a =>
    by_cases hij : i = j
    · subst hij
      rw [Option.map_some, Option.map_some, h a ha]
    · rw [Option.map_some, Option.map_some, if_neg hij, if_neg hij]

theorem update_absent {f : Record → Record} {i : Nat} (h : s.get? i = none) : s.update i f = s := by
  rw [update_congr (g := id) fun a ha => by rw [h] at ha; cases ha]
  refine eq_of_get? fun j => ?_
  rw [get?_update]
  simp

/-- A new object is one without fields that is given its values. -/
theorem append_eq_write (s : ObjectStore) (entity : String) (key : Key)
    (values : List (String × Value)) :
    (⟨s.records ++ [{ entity, key, fields := .ofList values }]⟩ : ObjectStore) =
      ObjectStore.write ⟨s.records ++ [{ entity, key, fields := .empty }]⟩
        (.fields s.size values) := by
  refine eq_of_get? fun i => ?_
  rw [get?_write, get?_snoc, get?_snoc]
  by_cases hi : i = s.size
  · rw [if_pos hi, if_pos hi, hi]
    exact congrArg some (if_pos rfl).symm
  · rw [if_neg hi, if_neg hi]
    cases s.get? i with
    | none => rfl
    | some a => exact congrArg some (if_neg (Ne.symm hi)).symm

/-- A key that was loaded finds its object in every later store, so that loading it again is a write. -/
theorem load_again {values : List (String × Value)} (hkey : key.Regular)
    (h : s.load entity key values = (id, s')) :
    (∀ vs, s.Written vs → s'.Written (vs ++ [.fields id values])) ∧ s.Extends s' ∧
      ∀ s₂, s'.Extends s₂ → s₂.load entity key values = (id, s₂.write (.fields id values)) := by
  have hfound : ∀ {s : ObjectStore}, s.find? entity key = some id →
      s.load entity key values = (id, s.write (.fields id values)) := fun hfind => by
    rw [load, hfind]
    rfl
  suffices hmade : (∀ vs, s.Written vs → s'.Written (vs ++ [.fields id values])) ∧ s.Extends s' ∧
      s'.find? entity key = some id from
    ⟨hmade.1, hmade.2.1, fun s₂ hext => hfound (find?_extends hmade.2.2 hext)⟩
  rcases s.load_cases entity key values with ⟨_, hfind, hload⟩ | ⟨hfind, hload⟩ <;>
    cases h.symm.trans hload
  · have hext := extends_writeAll s [.fields id values]
    exact ⟨fun vs hvs => hvs.write (find?_some hfind).lt, hext, find?_extends hfind hext⟩
  · refine ⟨fun vs hvs => ?_, extends_append s _,
      List.findIdx?_eq_some_iff_getElem.2 ⟨?_, ?_, fun j hj => ?_⟩⟩
    · rw [append_eq_write]
      exact (hvs.append _).write (by simp [size, Write.object])
    · simp [size]
    · simp only [size, List.getElem_concat_length]
      exact Record.isFor_iff.2 ⟨rfl, Key.meets_refl hkey⟩
    · rw [List.getElem_append_left hj, find?_none hfind (List.getElem?_eq_getElem hj)]
      exact Bool.false_ne_true

end ObjectStore

/-! ## Links are writes -/

theorem Record.initMany_eq (a : Record) (p : String) :
    a.initMany p = a.relate p (.many (Related.collection (a.related? p))) := by
  unfold initMany
  split
  · rename_i ts hts
    have hsame : a.relations.insert p (.many ts) = a.relations := OrderedMap.insert_of_get? hts
    rw [hts, relate]
    show a = { a with relations := a.relations.insert p (.many ts) }
    rw [hsame]
  · rename_i hnone
    congr 2
    unfold Related.collection
    cases hheld : a.related? p with
    | none => rfl
    | some held =>
      cases held with
      | one t => rfl
      | many ts => exact (hnone ts hheld).elim

namespace ObjectStore

theorem related_many (s : ObjectStore) (i : Nat) (p : String) (target : Option Nat) :
    s.related true i p target = s.write (.collect i p target) := by
  cases target with
  | none => exact update_congr fun a _ => a.initMany_eq p
  | some t =>
    show (s.linkMany i p t).2 = s.update i _
    unfold linkMany
    cases ha : s.get? i with
    | none => exact (update_absent ha).symm
    | some a =>
      dsimp only
      rw [many_initMany]
      have hmany : a.many p = Related.collection (a.related? p) := rfl
      split
      · rename_i hmem
        refine update_congr fun b hb => ?_
        cases ha.symm.trans hb
        rw [hmany] at hmem
        rw [Record.initMany_eq, Write.on, Related.collect, if_pos (List.contains_iff_mem.1 hmem)]
      · rename_i hmem
        refine update_congr fun b hb => ?_
        cases ha.symm.trans hb
        rw [hmany] at hmem ⊢
        rw [Write.on, Related.collect, if_neg fun h => hmem (List.contains_iff_mem.2 h)]

theorem related_one (s : ObjectStore) (i : Nat) (p : String) (t : Nat) :
    s.related false i p (some t) = s.write (.point i p t) := by
  show (s.linkOne i p t).2 = s.update i _
  unfold linkOne
  cases ha : s.get? i with
  | none => exact (update_absent ha).symm
  | some a => rfl

end ObjectStore

/-! ## Rows that are met again -/

/-- A row with the cells of another, and with the same objects, or none, for some aliases. -/
structure Row.Alike (aliases : List String) (row row₂ : Row) : Prop where
  cells : row₂.cells = row.cells
  objects : ∀ a ∈ aliases, ∃ o, row.object a = .ok o ∧ row₂.object a = .ok o

namespace Row

variable {aliases : List String} {aliasName : String} {row row₂ : Row}

theorem Alike.symm (h : row.Alike aliases row₂) : row₂.Alike aliases row :=
  ⟨h.cells.symm, fun a ha => (h.objects a ha).imp fun _ ⟨ho, ho₂⟩ => ⟨ho₂, ho⟩⟩

/-- Giving two rows one object for an alias makes them alike in it. -/
theorem Alike.setObject (h : row.Alike aliases row₂) (aliasName : String) (o : Option Nat) :
    (row.setObject aliasName o).Alike (aliasName :: aliases) (row₂.setObject aliasName o) := by
  refine ⟨h.cells, fun a ha => ?_⟩
  by_cases heq : a = aliasName
  · subst heq
    exact ⟨o, object_setObject .., object_setObject ..⟩
  · obtain ⟨p, hp, hp₂⟩ := h.objects a ((List.mem_cons.1 ha).resolve_left heq)
    exact ⟨p, by rw [object_setObject_of_ne row heq, hp],
      by rw [object_setObject_of_ne row₂ heq, hp₂]⟩

end Row

namespace Entity

variable {e : Entity} {aliases : List String} {aliasName : String} {row row₂ : Row}
  {rows : List Row} {s : ObjectStore} {ids : List Nat}

theorem keyParts_of_cells (h : row₂.cells = row.cells) (fields : List String) :
    keyParts aliasName row₂ fields = keyParts aliasName row fields := by
  have hrequire : row₂.require aliasName = row.require aliasName := by
    funext field
    rw [Row.require, Row.value?, Row.get?, h]
    rfl
  induction fields with
  | nil => rfl
  | cons field rest ih => rw [keyParts, keyParts, hrequire, ih]

theorem rowKey_alike (h : row.Alike aliases row₂) :
    e.rowKey row₂ aliasName = e.rowKey row aliasName := by
  rw [rowKey, rowKey, keyParts_of_cells h.cells]

theorem rowValues_alike (h : row.Alike aliases row₂) :
    e.rowValues row₂ aliasName = e.rowValues row aliasName := by
  rw [rowValues, Row.cellsOf, h.cells]
  rfl

/-- Loading an alias of rows that made a list of writes: rows like them are given the same objects by the
same writes in every later store, and nothing is made. -/
structure Reloads (e : Entity) (aliasName : String) (rows : List Row) (s : ObjectStore)
    (ids : List Nat) (ws : List Write) : Prop where
  written : ∀ vs, s.Written vs → (e.loadRows aliasName rows s).store.Written (vs ++ ws)
  grows : s.Extends (e.loadRows aliasName rows s).store
  again : ∀ aliases rows₂ s₂, (e.loadRows aliasName rows s).store.Extends s₂ →
    List.Forall₂ (Row.Alike aliases) rows rows₂ →
    ∃ rows₂', e.loadRows aliasName rows₂ s₂ = ⟨rows₂', s₂.writeAll ws, .ok ids⟩ ∧
      List.Forall₂ (Row.Alike (aliasName :: aliases)) (e.loadRows aliasName rows s).rows rows₂'

/-- A row without a key stays without an object. -/
theorem Reloads.null {ws : List Write} (h : e.Reloads aliasName rows s ids ws) {key : Key}
    (hkey : e.rowKey row aliasName = .ok key) (hnull : key.isNull = true) :
    e.Reloads aliasName (row :: rows) s ids ws := by
  have hload := loadRows_null rows s hkey hnull
  refine ⟨by rw [hload]; exact h.written, by rw [hload]; exact h.grows, ?_⟩
  rw [hload]
  rintro aliases _ s₂ hext₂ (_ | ⟨halike, hrest⟩)
  obtain ⟨rows₂', hagain, hrows₂'⟩ := h.again aliases _ s₂ hext₂ hrest
  refine ⟨_, ?_, .cons (halike.setObject aliasName none) hrows₂'⟩
  rw [loadRows_null _ s₂ ((rowKey_alike halike).trans hkey) hnull, hagain]

/-- A row with a key is given the object that the key has found or made, by a write to it. -/
theorem Reloads.keyed {ws : List Write} {key : Key} {id : Nat} {s₁ : ObjectStore}
    (h : e.Reloads aliasName rows s₁ ids ws) (hkey : e.rowKey row aliasName = .ok key)
    (hnull : key.isNull = false) (hregular : key.Regular)
    (hload : s.load e.name key (e.rowValues row aliasName) = (id, s₁)) :
    e.Reloads aliasName (row :: rows) s (id :: ids)
      (.fields id (e.rowValues row aliasName) :: ws) := by
  obtain ⟨hwritten, hgrows, hagain⟩ := ObjectStore.load_again hregular hload
  have hloads := loadRows_keyed rows hkey hnull hload
  refine ⟨fun vs hvs => ?_, ?_, ?_⟩
  · rw [hloads, List.append_cons]
    exact h.written _ (hwritten vs hvs)
  · rw [hloads]
    exact hgrows.trans h.grows
  · rw [hloads]
    rintro aliases _ s₂ hext₂ (_ | ⟨halike, hrest⟩)
    have hwrite := ObjectStore.extends_writeAll s₂ [.fields id (e.rowValues row aliasName)]
    obtain ⟨rows₂', hrest, hrows₂'⟩ := h.again aliases _ _ (hext₂.trans hwrite) hrest
    refine ⟨_, ?_, .cons (halike.setObject aliasName (some id)) hrows₂'⟩
    have hload₂ := hagain s₂ (h.grows.trans hext₂)
    rw [← rowValues_alike halike] at hload₂
    rw [loadRows_keyed _ ((rowKey_alike halike).trans hkey) hnull hload₂, rowValues_alike halike,
      show s₂.write (.fields id _) = s₂.writeAll [.fields id _] from rfl, hrest]
    rfl

/-- Loading an alias of rows makes a list of writes. -/
theorem LoadSteps.again {rows' : List Row} {s' : ObjectStore}
    (h : e.LoadSteps aliasName rows s rows' s' ids) (hrows : ∀ row ∈ rows, row.Regular) :
    ∃ ws, e.Reloads aliasName rows s ids ws := by
  induction h with
  | nil s =>
    refine ⟨[], fun vs hvs => by rwa [List.append_nil], .refl s, fun aliases rows₂ s₂ _ hrows₂ => ?_⟩
    cases hrows₂
    exact ⟨[], rfl, .nil⟩
  | null hkey hnull _ ih =>
    exact (ih fun r hr => hrows r (List.mem_cons_of_mem _ hr)).imp fun ws hagain =>
      hagain.null hkey hnull
  | keyed hkey hnull hload _ ih =>
    have hregular := rowKey_regular (hrows _ (List.mem_cons_self ..)) hkey
    exact (ih fun r hr => hrows r (List.mem_cons_of_mem _ hr)).imp' _ fun ws hagain =>
      hagain.keyed hkey hnull hregular hload

end Entity

/-! ## Rows that are linked -/

namespace Relation

/-- The writes that give a source its target. -/
def forward (r : Relation) (source : Nat) (target : Option Nat) : List Write :=
  match r.isMany, target with
  | true, target => [.collect source r.property target]
  | false, some target => [.point source r.property target]
  | false, none => []

/-- The writes that give a target its source. -/
def backward (back : Option String) (source : Nat) (target : Option Nat) : List Write :=
  match back, target with
  | some back, some target => [.point target back source]
  | _, _ => []

/-- The writes that linking one row makes. -/
def rowWrites (r : Relation) (sourceAlias targetAlias : String) (back : Option String) (row : Row) :
    List Write :=
  match row.object sourceAlias, row.object targetAlias with
  | .ok (some source), .ok target => r.forward source target ++ backward back source target
  | _, _ => []

variable {r : Relation} {sourceAlias targetAlias : String} {back : Option String} {aliases : List String}
  {row row₂ : Row} {rows rows₂ : List Row}

/-- A conflict that is passed over stops nothing. -/
theorem reportConflict_warns (object previous : Nat) (property : String) (l : Links) :
    Ends (fun _ _ => True) (fun _ _ => False) (r.reportConflict .warn object previous property l) :=
  trivial

theorem linkForward_writes {source : Nat} {target : Option Nat} {policy : ConflictPolicy}
    {l l' : Links} (h : r.linkForward policy source target l = .ok ⟨⟩ l') :
    l'.store = l.store.writeAll (r.forward source target) := by
  rw [(linkForward_ok h).1]
  unfold forward
  cases r.isMany <;> cases target
  case false.none => rfl
  case false.some t => exact ObjectStore.related_one ..
  all_goals exact ObjectStore.related_many ..

/-- Where conflicts are passed over, a row that was hydrated for both ends is linked by its writes. -/
theorem linkRow_writes (hrow : row.Alike aliases row₂) (hsource : sourceAlias ∈ aliases)
    (htarget : targetAlias ∈ aliases) (l : Links) :
    Ends (fun _ l' => l'.store = l.store.writeAll (r.rowWrites sourceAlias targetAlias back row))
      (fun _ _ => False) (r.linkRow sourceAlias targetAlias back .warn row l) := by
  obtain ⟨source, hs, -⟩ := hrow.objects _ hsource
  obtain ⟨target, ht, -⟩ := hrow.objects _ htarget
  unfold linkRow rowWrites
  rw [hs, ht]
  refine Ends.bind (P := fun o l₁ => source = o ∧ l = l₁) ⟨rfl, rfl⟩ ?_
  rintro _ _ ⟨rfl, rfl⟩
  cases source with
  | none => exact rfl
  | some source =>
    refine Ends.bind (P := fun o l₁ => target = o ∧ l = l₁) ⟨rfl, rfl⟩ ?_
    rintro _ _ ⟨rfl, rfl⟩
    dsimp only
    rw [ObjectStore.writeAll_append]
    cases hforward : r.linkForward .warn source target l with
    | error e l₁ => exact ((linkForward_errors reportConflict_warns source target l).error hforward).elim
    | ok _ l₁ =>
      rw [step_bind_of_ok hforward, ← linkForward_writes hforward]
      cases back <;> cases target
      case some.some back target =>
        show Ends _ _ (r.linkBack .warn back source target l₁)
        cases hback : r.linkBack .warn back source target l₁ with
        | error e l₂ => exact ((linkBack_errors reportConflict_warns back source target l₁).error hback).elim
        | ok _ l₂ => exact (linkBack_ok hback).1.trans (ObjectStore.related_one ..)
      all_goals exact rfl

/-- Rows that are alike are linked by the same writes. -/
theorem rowWrites_alike (hrow : row.Alike aliases row₂) (hsource : sourceAlias ∈ aliases)
    (htarget : targetAlias ∈ aliases) :
    r.rowWrites sourceAlias targetAlias back row₂ = r.rowWrites sourceAlias targetAlias back row := by
  obtain ⟨source, hs, hs₂⟩ := hrow.objects _ hsource
  obtain ⟨target, ht, ht₂⟩ := hrow.objects _ htarget
  unfold rowWrites
  rw [hs, hs₂, ht, ht₂]

end Relation

end GraphLoad
