/-
Loading an alias: every row whose key is null is given no object, every other row the object that
its key identifies; those objects are the set of the alias, each once. Nothing else becomes an
object, and what the objects of the store were related to is left as it was.
-/
import GraphLoad.Proofs.Object.Identity
import GraphLoad.Proofs.OrderedMap
import GraphLoad.Proofs.Repetition
import GraphLoad.Proofs.Steps
import GraphLoad.Object.Loading

namespace GraphLoad

/-- A row all of whose cells a column can hold. -/
def Row.Regular (row : Row) : Prop := ∀ cell ∈ row.cells.entries, cell.2.Regular

instance (row : Row) : Decidable row.Regular :=
  inferInstanceAs (Decidable (∀ cell ∈ row.cells.entries, cell.2.Regular))

theorem Row.require_ok {row : Row} {aliasName field : String} {v : Value}
    (h : row.require aliasName field = .ok v) : row.value? aliasName field = some v := by
  unfold Row.require at h
  split at h
  · rename_i hv; cases h; exact hv
  · cases h

@[simp] theorem Row.object_setObject (row : Row) (aliasName : String) (o : Option Nat) :
    (row.setObject aliasName o).object aliasName = .ok o := by
  simp [Row.object, Row.setObject]

theorem Row.object_setObject_of_ne (row : Row) {a b : String} (h : a ≠ b) (o : Option Nat) :
    (row.setObject b o).object a = row.object a := by
  simp [Row.object, Row.setObject, OrderedMap.get?_insert_of_ne _ h]

namespace Entity

variable {e : Entity} {aliasName : String}

theorem keyParts_ok {row : Row} :
    ∀ {fields : List String} {parts : List Value}, keyParts aliasName row fields = .ok parts →
      List.Forall₂ (fun field v => row.value? aliasName field = some v) fields parts
  | [], parts, h => by
    cases h; exact .nil
  | field :: rest, parts, h => by
    unfold keyParts at h
    obtain ⟨v, hv, h⟩ := except_bind_ok h
    obtain ⟨others, hothers, h⟩ := except_bind_ok h
    cases h
    exact .cons (Row.require_ok hv) (keyParts_ok hothers)

/-- A key whose fields all have cells can be read. -/
theorem keyParts_total {row : Row} : ∀ {fields : List String},
    (∀ field ∈ fields, (row.value? aliasName field).isSome = true) →
      ∃ parts, keyParts aliasName row fields = .ok parts
  | [], _ => ⟨[], rfl⟩
  | field :: rest, h => by
    obtain ⟨v, hv⟩ := Option.isSome_iff_exists.1 (h field (List.mem_cons_self ..))
    obtain ⟨others, hothers⟩ := keyParts_total fun f hf => h f (List.mem_cons_of_mem _ hf)
    have hrequire : row.require aliasName field = .ok v := by
      unfold Row.require
      rw [hv]
    refine ⟨v :: others, ?_⟩
    unfold keyParts
    rw [hrequire, except_ok_bind, hothers, except_ok_bind]
    rfl

theorem rowKey_ok {row : Row} {key : Key} (h : e.rowKey row aliasName = .ok key) :
    List.Forall₂ (fun field v => row.value? aliasName field = some v) e.primaryKey key.parts := by
  obtain ⟨parts, hparts, rfl⟩ := except_map_ok h
  exact keyParts_ok hparts

theorem rowKey_regular {row : Row} {key : Key} (hrow : row.Regular)
    (h : e.rowKey row aliasName = .ok key) : key.Regular := by
  intro v hv
  obtain ⟨field, -, hfield⟩ := forall₂_mem_right (rowKey_ok h) v hv
  exact hrow _ (OrderedMap.mem_of_lookup hfield)

section
variable {row : Row} {s s₁ : ObjectStore} {key : Key} {id : Nat}

theorem loadRows_null (rows : List Row) (s : ObjectStore) (hkey : e.rowKey row aliasName = .ok key)
    (hnull : key.isNull = true) : e.loadRows aliasName (row :: rows) s =
      ⟨row.setObject aliasName none :: (e.loadRows aliasName rows s).rows,
        (e.loadRows aliasName rows s).store, (e.loadRows aliasName rows s).objects⟩ := by
  rw [loadRows, hkey]
  exact if_pos hnull

theorem loadRows_keyed (rows : List Row) (hkey : e.rowKey row aliasName = .ok key)
    (hnull : key.isNull = false)
    (hload : s.load e.name key (e.rowValues row aliasName) = (id, s₁)) :
    e.loadRows aliasName (row :: rows) s =
      ⟨row.setObject aliasName (some id) :: (e.loadRows aliasName rows s₁).rows,
        (e.loadRows aliasName rows s₁).store,
        (e.loadRows aliasName rows s₁).objects.map (id :: ·)⟩ := by
  rw [loadRows, hkey]
  dsimp only
  rw [if_neg (Bool.eq_false_iff.1 hnull), hload]

end

/-- How rows are loaded one after the other while their keys can be read: a row whose key is null is given no
object, any other one that of the load of its key. -/
inductive LoadSteps (e : Entity) (aliasName : String) :
    List Row → ObjectStore → List Row → ObjectStore → List Nat → Prop
  | nil (s : ObjectStore) : LoadSteps e aliasName [] s [] s []
  | null {row : Row} {rows rows' : List Row} {s s' : ObjectStore} {ids : List Nat} {key : Key}
      (hkey : e.rowKey row aliasName = .ok key) (hnull : key.isNull = true)
      (hsteps : LoadSteps e aliasName rows s rows' s' ids) :
      LoadSteps e aliasName (row :: rows) s (row.setObject aliasName none :: rows') s' ids
  | keyed {row : Row} {rows rows' : List Row} {s s₁ s' : ObjectStore} {ids : List Nat} {key : Key}
      {id : Nat} (hkey : e.rowKey row aliasName = .ok key) (hnull : key.isNull = false)
      (hload : s.load e.name key (e.rowValues row aliasName) = (id, s₁))
      (hsteps : LoadSteps e aliasName rows s₁ rows' s' ids) :
      LoadSteps e aliasName (row :: rows) s (row.setObject aliasName (some id) :: rows') s' (id :: ids)

theorem loadRows_steps {rows : List Row} {s : ObjectStore} {ids : List Nat}
    (h : (e.loadRows aliasName rows s).objects = .ok ids) : e.LoadSteps aliasName rows s
      (e.loadRows aliasName rows s).rows (e.loadRows aliasName rows s).store ids := by
  induction rows generalizing s ids with
  | nil =>
    cases h
    exact .nil s
  | cons row rows ih =>
    cases hkey : e.rowKey row aliasName with
    | error err =>
      rw [loadRows, hkey] at h
      cases h
    | ok key =>
      cases hnull : key.isNull with
      | true =>
        rw [loadRows_null rows s hkey hnull] at h ⊢
        exact .null hkey hnull (ih h)
      | false =>
        cases hload : s.load e.name key (e.rowValues row aliasName) with
        | mk id s₁ =>
          rw [loadRows_keyed rows hkey hnull hload] at h ⊢
          obtain ⟨others, hothers, rfl⟩ := except_map_ok h
          exact .keyed hkey hnull hload (ih hothers)

/-- What loading an alias makes of a row: it is given no object, or that of its key. -/
def Placed (e : Entity) (aliasName : String) (s : ObjectStore) (row row' : Row) : Prop :=
  ∃ key o, e.rowKey row aliasName = .ok key ∧ row' = row.setObject aliasName o ∧
    ((key.isNull = true ∧ o = none) ∨
      (key.isNull = false ∧ ∃ id, o = some id ∧ s.Stands e.name key id))

/-- What loading an alias makes of rows and of a store, with the objects it finds. -/
structure Loads (e : Entity) (aliasName : String) (rows : List Row) (s : ObjectStore)
    (rows' : List Row) (s' : ObjectStore) (ids : List Nat) : Prop where
  wf : s'.WF
  grows : s.Extends s'
  placed : List.Forall₂ (e.Placed aliasName s') rows rows'
  members : ∀ id, id ∈ ids ↔ ∃ row ∈ rows', row.object aliasName = .ok (some id)
  made : ∀ i b, s'.get? i = some b →
    (∃ a, s.get? i = some a ∧ b.entity = a.entity ∧ b.key = a.key) ∨
      (b.entity = e.name ∧ ∃ row ∈ rows, e.rowKey row aliasName = .ok b.key)
  related : ∀ i p, s'.related? i p = s.related? i p

theorem LoadSteps.loads {rows rows' : List Row} {s s' : ObjectStore} {ids : List Nat}
    (h : e.LoadSteps aliasName rows s rows' s' ids) (hwf : s.WF) (hrows : ∀ row ∈ rows, row.Regular) :
    e.Loads aliasName rows s rows' s' ids := by
  induction h with
  | nil s =>
    exact ⟨hwf, .refl s, .nil, by simp, fun i b hb => .inl ⟨b, hb, rfl, rfl⟩, fun _ _ => rfl⟩
  | null hkey hnull _ ih =>
    -- a row without a key is passed over
    have hl := ih hwf fun r hr => hrows r (List.mem_cons_of_mem _ hr)
    refine ⟨hl.wf, hl.grows, .cons ⟨_, none, hkey, rfl, .inl ⟨hnull, rfl⟩⟩ hl.placed, ?_,
      fun i b hb => ?_, hl.related⟩
    · simpa using hl.members
    · refine (hl.made i b hb).imp_right fun ⟨he, r, hr, hk⟩ => ?_
      exact ⟨he, r, List.mem_cons_of_mem _ hr, hk⟩
  | @keyed row _ _ _ _ _ _ _ id hkey hnull hload _ ih =>
    obtain ⟨hwf₁, hgrows, hstands⟩ :=
      ObjectStore.load_ok hwf (rowKey_regular (hrows row (List.mem_cons_self ..)) hkey) hnull hload
    have hl := ih hwf₁ fun r hr => hrows r (List.mem_cons_of_mem _ hr)
    constructor
    case wf => exact hl.wf
    case grows => exact hgrows.trans hl.grows
    case placed =>
      refine .cons ⟨_, some id, hkey, rfl, .inr ⟨hnull, id, rfl, ?_⟩⟩ hl.placed
      exact hstands.extends hl.grows
    case members =>
      intro i
      rw [List.mem_cons, hl.members]
      simp [eq_comm]
    case made =>
      intro i b hb
      rcases hl.made i b hb with ⟨c, hc, he, hk⟩ | ⟨he, r, hr, hk⟩
      · rcases ObjectStore.load_made hload hc with ⟨a, ha, he', hk'⟩ | ⟨he', hk'⟩
        · exact .inl ⟨a, ha, he.trans he', hk.trans hk'⟩
        · exact .inr ⟨he.trans he', row, List.mem_cons_self .., by rw [hk, hk', hkey]⟩
      · exact .inr ⟨he, r, List.mem_cons_of_mem _ hr, hk⟩
    case related =>
      intro i p
      rw [hl.related, ObjectStore.related?_load hload]

/-- Rows whose keys can all be read can be loaded. -/
theorem loadRows_total {rows : List Row} {s : ObjectStore}
    (h : ∀ row ∈ rows, ∀ field ∈ e.primaryKey, (row.value? aliasName field).isSome = true) :
    ∃ ids, (e.loadRows aliasName rows s).objects = .ok ids := by
  induction rows generalizing s with
  | nil => exact ⟨[], rfl⟩
  | cons row rows ih =>
    have hrest : ∀ row ∈ rows, ∀ field ∈ e.primaryKey, (row.value? aliasName field).isSome = true :=
      fun r hr => h r (List.mem_cons_of_mem _ hr)
    obtain ⟨parts, hparts⟩ := keyParts_total (h row (List.mem_cons_self ..))
    have hkey : e.rowKey row aliasName = .ok ⟨parts⟩ := by
      unfold rowKey
      rw [hparts]
      rfl
    unfold loadRows
    rw [hkey]
    dsimp only
    split
    · exact ih hrest
    · obtain ⟨others, hothers⟩ :=
        ih hrest (s := (s.load e.name ⟨parts⟩ (e.rowValues row aliasName)).2)
      exact ⟨_, by rw [hothers]; rfl⟩

/-- The objects of an alias are listed once. -/
theorem objectLoad_ok {rows : List Row} {s : ObjectStore} {ids : List Nat} (hwf : s.WF)
    (hrows : ∀ row ∈ rows, row.Regular) (h : (e.objectLoad aliasName rows s).objects = .ok ids) :
    e.Loads aliasName rows s (e.objectLoad aliasName rows s).rows
      (e.objectLoad aliasName rows s).store ids ∧ ids.Nodup := by
  obtain ⟨all, hall, rfl⟩ := except_map_ok h
  have hl := (loadRows_steps hall).loads hwf hrows
  refine ⟨⟨hl.wf, hl.grows, hl.placed, fun id => ?_, hl.made, hl.related⟩, nodup_eraseDups all⟩
  rw [List.mem_eraseDups]
  exact hl.members id

end Entity

end GraphLoad
