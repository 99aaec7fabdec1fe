/-
Keys over a database. The rows of an entity's table are told apart by their keys; a row that a
statement answers has, under the alias of a set, the key of what stands there, or a null one where
nothing does; and the condition that a chain is restricted by holds of the rows of its source set.
-/
import GraphLoad.Proofs.Object.Facts
import GraphLoad.Proofs.Plan.Statement
import GraphLoad.Run.Cascade

namespace GraphLoad

open Sql

namespace Entity

variable {e : Entity} {db : Database} {u v : Tuple}

/-- The key of a row of the entity's table. -/
def keyOf (e : Entity) (u : Tuple) : Key :=
  ⟨e.primaryKey.map fun field => u ((e.columns.get? field).getD "")⟩

/-- What tells the object of a row from all others. -/
def identityOf (e : Entity) (u : Tuple) : Identity := (e.name, e.keyOf u)

/-- A table whose rows are told apart by keys no part of which is null. -/
structure Keyed (e : Entity) (db : Database) : Prop where
  present : ∀ u ∈ db.tuples (.named e.table), ∀ v ∈ (e.keyOf u).parts, v.isNull = false
  unique : ∀ u ∈ db.tuples (.named e.table), ∀ v ∈ db.tuples (.named e.table),
    (e.keyOf u).sameAs (e.keyOf v) = true → u = v

theorem Keyed.not_null (h : e.Keyed db) (hu : u ∈ db.tuples (.named e.table)) :
    (e.keyOf u).isNull = false := by
  have hpresent := h.present u hu
  unfold Key.isNull keyOf at *
  cases hkey : e.primaryKey with
  | nil => exact (e.primaryKey_ne_nil hkey).elim
  | cons field rest =>
    rw [hkey] at hpresent
    rw [List.map_cons, List.all_cons, hpresent _ (List.mem_cons_self ..), Bool.false_and]

theorem Keyed.eq_of_identityOf (h : e.Keyed db) (hregular : (e.keyOf u).Regular)
    (hu : u ∈ db.tuples (.named e.table)) (hv : v ∈ db.tuples (.named e.table))
    (heq : e.identityOf u = e.identityOf v) : u = v := by
  have hkey : e.keyOf u = e.keyOf v := (Prod.mk.inj heq).2
  refine h.unique u hu v hv ?_
  rw [← hkey]
  exact Key.sameAs_refl hregular

end Entity

/-- A database of values that columns can hold. -/
def Sql.Database.Regular (db : Database) : Prop :=
  ∀ table, ∀ u ∈ db.tuples table, ∀ column, (u column).Regular

theorem Entity.keyOf_regular {db : Database} (hdb : db.Regular) {table : Table} {u : Tuple}
    (hu : u ∈ db.tuples table) (e : Entity) : (e.keyOf u).Regular := by
  intro v hv
  obtain ⟨field, -, rfl⟩ := List.mem_map.1 hv
  exact hdb table u hu _

/-! ## Cells -/

/-- The value of a field of a set in an environment, null where nothing stands under its alias. -/
def Command.cell (c : Command) (env : Env) (field : String) : Value :=
  match env c.aliasName with
  | some u => u ((c.entity.columns.get? field).getD "")
  | none => .null

/-- Fields of sets that are told apart by their labels. -/
def Apart (fields : List (Command × String)) : Prop :=
  ∀ p ∈ fields, ∀ q ∈ fields, label p.1.aliasName p.2 = label q.1.aliasName q.2 → p = q

section
variable {db : Database} {q : Select} {env : Env} {fields : List (Command × String)} {c : Command}

theorem eval_column {field : String} {column : Column} (h : c.IsColumn field column) :
    column.expr.eval db env = c.cell env field := by
  obtain ⟨name, hname, rfl⟩ := h
  unfold Expr.eval Command.cell
  rw [hname]
  rfl

/-- Under a label a row holds the value of the first field that has it. -/
theorem get?_row (hselects : Selects fields q) {l : String} {p : Command × String}
    (hfirst : fields.find? (fun p => label p.1.aliasName p.2 == l) = some p) :
    (db.row q env).get? l = some (p.1.cell env p.2) := by
  have hvalue : ∀ column ∈ q.columns, column.label = l →
      column.expr.eval db env = p.1.cell env p.2 := by
    intro column hcolumn hlabel
    obtain ⟨p', hp', hcol⟩ := hselects.listed column hcolumn
    rw [hlabel, hfirst] at hp'
    cases hp'
    exact eval_column hcol
  obtain ⟨column, hcolumn, hlabel⟩ := hselects.found p (List.mem_of_find?_eq_some hfirst)
  have hown : (label p.1.aliasName p.2 == l) = true := (List.find?_eq_some_iff_append.1 hfirst).1
  rw [beq_iff_eq.1 hown] at hlabel
  refine OrderedMap.get?_insertMany (fun a ha b hb heq => ?_)
    (List.mem_map.2 ⟨column, hcolumn, by rw [hlabel, hvalue column hcolumn hlabel]⟩) _
  -- all columns of one label are of the first field that has it
  obtain ⟨x, hx, rfl⟩ := List.mem_map.1 ha
  obtain ⟨y, hy, rfl⟩ := List.mem_map.1 hb
  obtain ⟨p₁, hp₁, hxcol⟩ := hselects.listed x hx
  obtain ⟨p₂, hp₂, hycol⟩ := hselects.listed y hy
  have hlabels : x.label = y.label := heq
  rw [hlabels, hp₂] at hp₁
  cases hp₁
  show x.expr.eval db env = y.expr.eval db env
  rw [eval_column hxcol, eval_column hycol]

/-- A row holds the value of every field that is selected. -/
theorem value?_row (hselects : Selects fields q) (hapart : Apart fields) {field : String}
    (hmem : (c, field) ∈ fields) :
    (db.row q env).value? c.aliasName field = some (c.cell env field) := by
  cases hfirst : fields.find? (fun p => label p.1.aliasName p.2 == label c.aliasName field) with
  | none => exact (List.find?_eq_none.1 hfirst _ hmem (beq_self_eq_true _)).elim
  | some p =>
    have hown : (label p.1.aliasName p.2 == label c.aliasName field) = true :=
      (List.find?_eq_some_iff_append.1 hfirst).1
    have hp : p = (c, field) :=
      hapart p (List.mem_of_find?_eq_some hfirst) _ hmem (beq_iff_eq.1 hown)
    rw [Row.value?, get?_row hselects hfirst, hp]

/-- A row holds only what columns can hold. -/
theorem row_regular (hdb : db.Regular) (hselects : Selects fields q) (henv : env ∈ db.envs q) :
    (db.row q env).Regular := by
  have hcell : ∀ p : Command × String, (p.1.cell env p.2).Regular := by
    intro p
    unfold Command.cell
    cases hu : env p.1.aliasName with
    | none => rfl
    | some u =>
      exact Database.envs_keeps (P := fun u => ∀ column, (u column).Regular)
        (fun table u hu => hdb table u hu) env henv _ u hu _
  intro cell hcellmem
  rcases OrderedMap.mem_entries_insertMany hcellmem with hmem | hmem
  · obtain ⟨column, hcolumn, rfl⟩ := List.mem_map.1 hmem
    obtain ⟨p, -, hcol⟩ := hselects.listed column hcolumn
    rw [eval_column hcol]
    exact hcell p
  · cases hmem

end

namespace Entity

variable {e : Entity}

theorem keyParts_of_value? {aliasName : String} {row : Row} (value : String → Value) :
    ∀ {fields : List String}, (∀ field ∈ fields, row.value? aliasName field = some (value field)) →
      keyParts aliasName row fields = .ok (fields.map value)
  | [], _ => rfl
  | field :: rest, h => by
    have hfield : row.require aliasName field = .ok (value field) := by
      unfold Row.require
      rw [h field (List.mem_cons_self ..)]
    unfold keyParts
    rw [hfield, except_ok_bind,
      keyParts_of_value? value fun f hf => h f (List.mem_cons_of_mem _ hf), except_ok_bind]
    rfl

end Entity

/-- The key of a set in a row; the objects that the row has been given play no part in it. -/
theorem rowKey_row {db : Database} {q : Select} {env : Env} {fields : List (Command × String)}
    {c : Command} {row : Row} (hselects : Selects fields q) (hapart : Apart fields)
    (hkey : ∀ field ∈ c.entity.primaryKey, (c, field) ∈ fields)
    (hrow : row.cells = (db.row q env).cells) :
    c.entity.rowKey row c.aliasName = .ok ⟨c.entity.primaryKey.map (c.cell env)⟩ := by
  unfold Entity.rowKey
  rw [Entity.keyParts_of_value? (c.cell env) fun field hfield => ?_]
  · rfl
  · have hvalue : (db.row q env).value? c.aliasName field = _ :=
      value?_row hselects hapart (hkey field hfield)
    unfold Row.value? Row.get? at hvalue ⊢
    rw [hrow]
    exact hvalue

theorem cells_some {c : Command} {env : Env} {u : Tuple} (hu : env c.aliasName = some u) :
    (⟨c.entity.primaryKey.map (c.cell env)⟩ : Key) = c.entity.keyOf u := by
  unfold Entity.keyOf Command.cell
  rw [hu]

theorem cells_none {c : Command} {env : Env} (hnone : env c.aliasName = none) :
    (⟨c.entity.primaryKey.map (c.cell env)⟩ : Key).isNull = true := by
  unfold Key.isNull Command.cell
  rw [hnone]
  exact List.all_eq_true.2 fun v hv => by
    obtain ⟨_, -, rfl⟩ := List.mem_map.1 hv
    rfl

/-! ## The condition on a source set -/

theorem Value.sameAll_map {α : Type} {f g : α → Value} {xs : List α} :
    Value.sameAll (xs.map f) (xs.map g) = true ↔ ∀ x ∈ xs, (f x).sameAs (g x) = true := by
  induction xs with
  | nil => simp [sameAll]
  | cons x xs ih => simp [sameAll, ih]

namespace Run

variable {db : Database} {source : Command} {store : ObjectStore} {objects : List Nat} {env : Env}

theorem keyColumns_ok : ∀ {fields : List String} {columns : List Expr},
    keyColumns source fields = .ok columns →
      columns = fields.map fun f => .column source.aliasName ((source.entity.columns.get? f).getD "")
  | [], columns, h => by
    cases h; rfl
  | field :: rest, columns, h => by
    unfold keyColumns at h
    obtain ⟨x, hx, h⟩ := except_bind_ok h
    obtain ⟨others, hothers, h⟩ := except_bind_ok h
    obtain ⟨name, hname, rfl⟩ := Entity.fieldExpr_ok hx
    cases h
    rw [List.map_cons, hname, ← keyColumns_ok hothers]
    rfl

theorem keyPartsOf_ok : ∀ {objects : List Nat} {keys : List (List Value)},
    keyPartsOf store objects = .ok keys →
      List.Forall₂ (fun i parts => ∃ a, store.get? i = some a ∧ a.key.parts = parts) objects keys
  | [], keys, h => by
    cases h; exact .nil
  | i :: rest, keys, h => by
    unfold keyPartsOf at h
    cases ha : store.get? i with
    | none => rw [ha] at h; cases h
    | some a =>
      rw [ha] at h
      obtain ⟨others, hothers, h⟩ := except_bind_ok h
      cases h
      exact .cons ⟨a, ha, rfl⟩ (keyPartsOf_ok hothers)

/-- The condition on a source set is about its key columns and the keys of its objects: membership of a
single column, and otherwise a choice between joint keys. -/
theorem keyCondition_cases {condition : Condition}
    (h : keyCondition source objects store = .ok condition) : ∃ columns keys,
      columns = source.entity.primaryKey.map
        (fun f => (.column source.aliasName ((source.entity.columns.get? f).getD "") : Expr)) ∧
      List.Forall₂ (fun i parts => ∃ a, store.get? i = some a ∧ a.key.parts = parts) objects keys ∧
      ((∃ column, columns = [column] ∧ condition = .isIn column (keys.filterMap List.getLast?)) ∨
        condition = .anyOf (keys.map fun key =>
          .allOf ((columns.zip key).map fun p => .compare .equal p.1 p.2))) := by
  unfold keyCondition at h
  obtain ⟨columns, hcolumns, h⟩ := except_bind_ok h
  obtain ⟨keys, hkeys, h⟩ := except_bind_ok h
  refine ⟨columns, keys, keyColumns_ok hcolumns, keyPartsOf_ok hkeys, ?_⟩
  split at h
  · cases h
    exact .inl ⟨_, rfl, rfl⟩
  · cases h
    exact .inr rfl

theorem parts_of_identity {e : Entity} {i : Nat} {u : Tuple} {key : List Value}
    (hident : store.identity? i = some (e.identityOf u))
    (hkey : ∃ a, store.get? i = some a ∧ a.key.parts = key) : key = (e.keyOf u).parts := by
  obtain ⟨a, ha, rfl⟩ := hkey
  obtain ⟨b, hb, heq⟩ := ObjectStore.identity?_eq_some.1 hident
  rw [ha] at hb
  cases hb
  exact congrArg Key.parts (Prod.mk.inj heq).2

/-- Whether one of some keys is that of a row. -/
def HasKey (db : Database) (e : Entity) (keys : List (List Value)) (x : Tuple) : Prop :=
  ∃ key ∈ keys, ∃ u ∈ db.tuples (.named e.table), key = (e.keyOf u).parts ∧
    (e.keyOf x).sameAs (e.keyOf u) = true

section
variable {x : Tuple} (hkeyed : source.entity.Keyed db)
  (hx : x ∈ db.tuples (.named source.entity.table)) (henv : env source.aliasName = some x)
include hkeyed hx henv

/-- A key field of a source row equals a part of another row's key if the two are the same. -/
theorem keyField_eq {u : Tuple} (hu : u ∈ db.tuples (.named source.entity.table)) {field : String}
    (hfield : field ∈ source.entity.primaryKey) :
    equality (Expr.eval db env
        (.column source.aliasName ((source.entity.columns.get? field).getD "")))
        (u ((source.entity.columns.get? field).getD "")) = some true ↔
      (x ((source.entity.columns.get? field).getD "")).sameAs
        (u ((source.entity.columns.get? field).getD "")) = true := by
  have hpresent : ∀ w ∈ db.tuples (.named source.entity.table),
      (w ((source.entity.columns.get? field).getD "")).isNull = false := fun w hw =>
    hkeyed.present w hw _ (List.mem_map.2 ⟨field, hfield, rfl⟩)
  unfold Expr.eval
  dsimp only
  rw [henv, equality_eq_true]
  exact ⟨fun h => h.2.2, fun h => ⟨hpresent x hx, hpresent u hu, h⟩⟩

/-- The condition of one joint key is that the source row has it. -/
theorem truth_jointKey {u : Tuple} (hu : u ∈ db.tuples (.named source.entity.table)) :
    db.truth env (.allOf (((source.entity.primaryKey.map fun f =>
      (.column source.aliasName ((source.entity.columns.get? f).getD "") : Expr)).zip
        (source.entity.keyOf u).parts).map fun p => .compare .equal p.1 p.2)) = some true ↔
      (source.entity.keyOf x).sameAs (source.entity.keyOf u) = true := by
  rw [Condition.truth_allOf, Database.truthAll_eq_true]
  unfold Key.sameAs Entity.keyOf
  rw [Value.sameAll_map, List.zip_map', List.map_map]
  simp only [List.mem_map, Function.comp_apply, forall_exists_index, and_imp,
    forall_apply_eq_imp_iff₂]
  refine forall₂_congr fun field hfield => ?_
  have hnull : (u ((source.entity.columns.get? field).getD "")).isNull = false :=
    hkeyed.present u hu _ (List.mem_map.2 ⟨field, hfield, rfl⟩)
  rw [Database.truth, Database.comparison, if_neg (by rw [hnull]; exact Bool.false_ne_true)]
  exact keyField_eq hkeyed hx henv hu hfield

variable {keys : List (List Value)}
  (hkeys : ∀ key ∈ keys, ∃ u ∈ db.tuples (.named source.entity.table),
    key = (source.entity.keyOf u).parts)
include hkeys

/-- Membership of a single key column. -/
theorem truth_singleKeys {field : String} (hpk : source.entity.primaryKey = [field]) :
    db.truth env (.isIn (.column source.aliasName ((source.entity.columns.get? field).getD ""))
      (keys.filterMap List.getLast?)) = some true ↔ HasKey db source.entity keys x := by
  have hone : ∀ u, (source.entity.keyOf u).parts =
      [u ((source.entity.columns.get? field).getD "")] := by
    intro u
    unfold Entity.keyOf
    rw [hpk]
    rfl
  have hmember : field ∈ source.entity.primaryKey := by
    rw [hpk]
    exact List.mem_singleton_self _
  have hmatch : ∀ u, (source.entity.keyOf x).sameAs (source.entity.keyOf u) =
      (x ((source.entity.columns.get? field).getD "")).sameAs
        (u ((source.entity.columns.get? field).getD "")) := by
    intro u
    unfold Key.sameAs
    rw [hone, hone]
    simp [Value.sameAll]
  rw [Database.truth, among_eq_true]
  simp only [List.mem_filterMap]
  constructor
  · rintro ⟨v, ⟨key, hkey, hlast⟩, heq⟩
    obtain ⟨u, hu, rfl⟩ := hkeys key hkey
    rw [hone, List.getLast?_singleton] at hlast
    cases hlast
    rw [keyField_eq hkeyed hx henv hu hmember] at heq
    exact ⟨_, hkey, u, hu, rfl, by rw [hmatch, heq]⟩
  · rintro ⟨key, hkey, u, hu, rfl, heq⟩
    refine ⟨_, ⟨_, hkey, by rw [hone, List.getLast?_singleton]⟩, ?_⟩
    rw [keyField_eq hkeyed hx henv hu hmember, ← hmatch, heq]

/-- A choice between joint keys. -/
theorem truth_jointKeys (hne : keys ≠ []) :
    db.truth env (.anyOf (keys.map fun key => .allOf (((source.entity.primaryKey.map fun f =>
      (.column source.aliasName ((source.entity.columns.get? f).getD "") : Expr)).zip key).map
        fun p => .compare .equal p.1 p.2))) = some true ↔ HasKey db source.entity keys x := by
  rw [Condition.truth_anyOf_eq_true ?demanding (by rw [ne_eq, List.map_eq_nil_iff]; exact hne)]
  case demanding =>
    intro c hc
    obtain ⟨key, hkey, rfl⟩ := List.mem_map.1 hc
    obtain ⟨u, -, rfl⟩ := hkeys key hkey
    refine Condition.isAlways_allOf ?_
    cases hpk : source.entity.primaryKey with
    | nil => exact (source.entity.primaryKey_ne_nil hpk).elim
    | cons field rest =>
      unfold Entity.keyOf
      rw [hpk]
      exact ⟨_, List.mem_cons_self .., rfl⟩
  simp only [List.mem_map, exists_exists_and_eq_and]
  refine exists_congr fun key => and_congr_right fun hkey => ?_
  constructor
  · intro htrue
    obtain ⟨u, hu, rfl⟩ := hkeys key hkey
    exact ⟨u, hu, rfl, (truth_jointKey hkeyed hx henv hu).1 htrue⟩
  · rintro ⟨u, hu, rfl, hmatch⟩
    exact (truth_jointKey hkeyed hx henv hu).2 hmatch

end

/-- A row has the key of an object exactly if it is that object's row. -/
theorem hasKey_iff {keys : List (List Value)} {x : Tuple}
    (hkeys : List.Forall₂ (fun i key => ∃ a, store.get? i = some a ∧ a.key.parts = key) objects keys)
    (hdb : db.Regular) (hkeyed : source.entity.Keyed db)
    (hobjects : ∀ i ∈ objects, ∃ u ∈ db.tuples (.named source.entity.table),
      store.identity? i = some (source.entity.identityOf u))
    (hx : x ∈ db.tuples (.named source.entity.table)) :
    HasKey db source.entity keys x ↔
      ∃ i ∈ objects, store.identity? i = some (source.entity.identityOf x) := by
  constructor
  · rintro ⟨key, hkey, u, hu, rfl, hmatch⟩
    obtain ⟨i, hi, hkeyi⟩ := forall₂_mem_right hkeys _ hkey
    obtain ⟨v, hv, hident⟩ := hobjects i hi
    have hsame : source.entity.keyOf u = source.entity.keyOf v := by
      rw [Key.mk.injEq]
      exact parts_of_identity hident hkeyi
    rw [hsame] at hmatch
    rw [hkeyed.unique x hx v hv hmatch]
    exact ⟨i, hi, hident⟩
  · rintro ⟨i, hi, hident⟩
    obtain ⟨key, hkey, hkeyi⟩ := forall₂_mem_left hkeys i hi
    refine ⟨key, hkey, x, hx, parts_of_identity hident hkeyi, ?_⟩
    exact Key.sameAs_refl (Entity.keyOf_regular hdb hx _)

/-- The condition on a source set holds of its rows: those whose key is that of an object of it. -/
theorem keyCondition_ok {condition : Condition} {x : Tuple}
    (h : keyCondition source objects store = .ok condition) (hdb : db.Regular)
    (hkeyed : source.entity.Keyed db) (hne : objects ≠ [])
    (hobjects : ∀ i ∈ objects, ∃ u ∈ db.tuples (.named source.entity.table),
      store.identity? i = some (source.entity.identityOf u))
    (hx : x ∈ db.tuples (.named source.entity.table)) (henv : env source.aliasName = some x) :
    db.truth env condition = some true ↔
      ∃ i ∈ objects, store.identity? i = some (source.entity.identityOf x) := by
  obtain ⟨columns, keys, hcolumns, hkeys, hcases⟩ := keyCondition_cases h
  have hrows : ∀ key ∈ keys, ∃ u ∈ db.tuples (.named source.entity.table),
      key = (source.entity.keyOf u).parts := by
    intro key hkey
    obtain ⟨i, hi, hkeyi⟩ := forall₂_mem_right hkeys key hkey
    obtain ⟨u, hu, hident⟩ := hobjects i hi
    exact ⟨u, hu, parts_of_identity hident hkeyi⟩
  rw [← hasKey_iff hkeys hdb hkeyed hobjects hx]
  rcases hcases with ⟨column, hsingle, rfl⟩ | rfl
  · rw [hcolumns] at hsingle
    obtain ⟨field, hpk, rfl⟩ := List.map_eq_singleton_iff.1 hsingle
    exact truth_singleKeys hkeyed hx henv hrows hpk
  · rw [hcolumns]
    refine truth_jointKeys hkeyed hx henv hrows ?_
    rintro rfl
    cases hkeys
    exact hne rfl

end Run

end GraphLoad
