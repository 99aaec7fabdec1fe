/-
The names in the statements of a plan. The statement of a chain speaks of nothing but tables and columns
of the entities that the chain is about, under aliases made of their names. Main statement: it is told to
a dialect, name by name, exactly if its tables, columns and aliases can be; so it is if the entities have
names that can. A column whose name starts with a digit stands bare, and no dialect is told it.
-/
import GraphLoad.Proofs.Plan.Scope
import GraphLoad.Proofs.Sql.Telling

namespace GraphLoad

open Sql

/-! ## Names of entities -/

variable {es : List Entity}

/-- An alias that has a digit or an underscore, and is an identifier if the names of some entities are. -/
structure Derived (es : List Entity) (aliasName : String) : Prop where
  marked : ∃ c ∈ aliasName.toList, c = '_' ∨ c.isDigit = true
  identifier : (∀ e ∈ es, OrderTerm.isIdentifier e.name = true) →
    OrderTerm.isIdentifier aliasName = true

/-- Such an alias is no reserved word, so it is told as it stands if it is an identifier. -/
theorem Derived.bare_iff {a : String} (h : Derived es a) :
    Bare a ↔ OrderTerm.isIdentifier a = true := by
  obtain ⟨c, hc, hmark⟩ := h.marked
  exact ⟨fun hbare => hbare.1, fun ha => ⟨ha, not_reserved hmark hc⟩⟩

theorem all_isFollower_digits (n : Nat) : (toString n).toList.all OrderTerm.isFollower = true := by
  rw [List.all_eq_true]
  intro c hc
  have hdigit := List.all_eq_true.1 (digits_toString n).all c hc
  simp [OrderTerm.isFollower, Char.isAlphanum, hdigit]

/-- The alias of a set is derived from the name of its entity. -/
theorem Derived.of_isAlias {e : Entity} (he : e ∈ es) {a : String}
    (h : CommandTree.IsAlias e.name a) : Derived es a := by
  obtain ⟨n, hn⟩ := h
  have hdigits := digits_toString n
  obtain ⟨c, hc⟩ := List.exists_mem_of_ne_nil _ hdigits.ne_nil
  have hmark := List.all_eq_true.1 hdigits.all c hc
  constructor
  · refine ⟨c, ?_, .inr hmark⟩
    have hfirst : c ∈ (e.name ++ toString n).toList := by
      rw [String.toList_append]
      exact List.mem_append_right _ hc
    rcases hn with rfl | ⟨k, rfl⟩
    · exact hfirst
    · rw [String.toList_append, String.toList_append]
      exact List.mem_append_left _ (List.mem_append_left _ hfirst)
  · intro hnames
    have hfirst := isIdentifier_append (hnames e he) (all_isFollower_digits n)
    rcases hn with rfl | ⟨k, rfl⟩
    · exact hfirst
    · exact isIdentifier_append (isIdentifier_append hfirst (by decide)) (all_isFollower_digits k)

/-- The alias of a pivot is derived from those it stands between. -/
theorem Derived.pivotAlias {a b : String} {e : Entity} (ha : Derived es a) (hb : Derived es b)
    (he : e ∈ es) : Derived es (Relation.pivotAlias a b e.name) := by
  unfold Relation.pivotAlias
  constructor
  · exact ⟨'_', by simp, .inl rfl⟩
  · intro hnames
    refine isIdentifier_append (isIdentifier_append (isIdentifier_append (isIdentifier_append
      (ha.identifier hnames) (by decide)) ?_) (by decide)) ?_
    · exact all_isFollower (hb.identifier hnames)
    · exact all_isFollower (hnames e he)

/-- Whether a table is that of one of some entities. -/
def Sql.Table.Of (es : List Entity) : Table → Prop
  | .named name => ∃ e ∈ es, e.table = name
  | .verbatim _ => False

/-- Whether an expression is a column of one of some entities, under an alias derived from them. -/
def Sql.Expr.Of (es : List Entity) : Expr → Prop
  | .column aliasName name => Derived es aliasName ∧ ∃ e ∈ es, name ∈ e.columns.values
  | .verbatim _ => False

/-- A statement about some entities. -/
abbrev Sql.Select.About (es : List Entity) (q : Select) : Prop :=
  q.Speaks (Table.Of es) (Derived es) (Expr.Of es)

theorem Entity.fieldExpr_of {e : Entity} (he : e ∈ es) {aliasName field : String} {x : Expr}
    (ha : Derived es aliasName) (h : e.fieldExpr aliasName field = .ok x) : x.Of es := by
  obtain ⟨name, hname, rfl⟩ := Entity.fieldExpr_ok h
  exact ⟨ha, e, he, List.mem_map_of_mem (OrderedMap.get?_eq_some_iff.1 hname)⟩

/-- Fields of an entity are equated with what they are bound to. -/
theorem Entity.equalities_of {e : Entity} (he : e ∈ es) {aliasName : String} (ha : Derived es aliasName)
    {bindings : List (String × Expr)} {on : List (Expr × Expr)} (hb : ∀ b ∈ bindings, b.2.Of es)
    (h : e.equalities aliasName bindings = .ok on) : ∀ p ∈ on, p.1.Of es ∧ p.2.Of es := by
  induction bindings generalizing on with
  | nil =>
    cases h
    intro p hp
    cases hp
  | cons b rest ih =>
    unfold Entity.equalities at h
    obtain ⟨column, hcolumn, h⟩ := except_bind_ok h
    obtain ⟨others, hothers, h⟩ := except_bind_ok h
    cases h
    intro p hp
    rcases List.mem_cons.1 hp with rfl | hp
    · exact ⟨Entity.fieldExpr_of he ha hcolumn, hb _ (List.mem_cons_self ..)⟩
    · exact ih (fun b hmem => hb b (List.mem_cons_of_mem _ hmem)) hothers p hp

/-! ## Joining -/

namespace Relation

/-- The entities that a relationship connects. -/
def entities (r : Relation) : List Entity := r.source :: r.target :: r.pivot.toList

variable {r : Relation} {sourceAlias targetAlias name : String} {kind : JoinKind} {q q' : Select}

theorem entity_mem {e : Entity} (h : r.entity name = .ok e) : e ∈ r.entities ∧ e.name = name := by
  unfold entity at h
  unfold entities
  split at h
  · rename_i heq
    cases h
    exact ⟨by simp, heq⟩
  · split at h
    · rename_i heq
      cases h
      exact ⟨by simp, heq⟩
    · split at h
      · rename_i p hp
        cases h
        obtain ⟨hp, heq⟩ := Option.filter_eq_some_iff.1 hp
        exact ⟨by simp [hp], by simpa using heq⟩
      · cases h

theorem fieldBindings_of {e : Entity} (he : e ∈ es) {aliasName : String} (ha : Derived es aliasName)
    {fields : List (String × String)} {bindings : List (String × Expr)}
    (h : fieldBindings e aliasName fields = .ok bindings) : ∀ b ∈ bindings, b.2.Of es := by
  induction fields generalizing bindings with
  | nil =>
    cases h
    intro b hb
    cases hb
  | cons field rest ih =>
    unfold fieldBindings at h
    obtain ⟨column, hcolumn, h⟩ := except_bind_ok h
    obtain ⟨others, hothers, h⟩ := except_bind_ok h
    cases h
    intro b hb
    rcases List.mem_cons.1 hb with rfl | hb
    · exact Entity.fieldExpr_of he ha hcolumn
    · exact ih hothers b hb

section
variable (hr : ∀ e ∈ r.entities, e ∈ es) (hs : Derived es sourceAlias) (ht : Derived es targetAlias)
include hr hs ht

theorem joinedAlias_derived {e : Entity} (h : r.entity name = .ok e) :
    Derived es (r.joinedAlias sourceAlias targetAlias name) := by
  obtain ⟨he, rfl⟩ := entity_mem h
  unfold joinedAlias
  split
  · exact ht
  · split
    · exact hs
    · exact hs.pivotAlias ht (hr e he)

theorem metAlias_derived {e : Entity} (h : r.entity name = .ok e) :
    Derived es (r.metAlias sourceAlias targetAlias name) := by
  obtain ⟨he, rfl⟩ := entity_mem h
  unfold metAlias
  split
  · exact hs
  · split
    · exact ht
    · exact hs.pivotAlias ht (hr e he)

theorem groupBindings_of {met : List (String × OrderedMap String String)}
    {bindings : List (String × Expr)}
    (h : r.groupBindings sourceAlias targetAlias met = .ok bindings) : ∀ b ∈ bindings, b.2.Of es := by
  induction met generalizing bindings with
  | nil =>
    cases h
    intro b hb
    cases hb
  | cons group rest ih =>
    unfold groupBindings at h
    obtain ⟨entity, hentity, h⟩ := except_bind_ok h
    obtain ⟨first, hfirst, h⟩ := except_bind_ok h
    obtain ⟨others, hothers, h⟩ := except_bind_ok h
    cases h
    intro b hb
    rcases List.mem_append.1 hb with hb | hb
    · exact fieldBindings_of (hr entity (entity_mem hentity).1) (metAlias_derived hr hs ht hentity)
        hfirst b hb
    · exact ih hothers b hb

/-- An entity is joined on columns of entities that the relationship connects. -/
theorem clause_of {group : String × OrderedMap String (OrderedMap String String)} {j : Join}
    (h : r.clause sourceAlias targetAlias group = .ok j) :
    j.table.Of es ∧ Derived es j.aliasName ∧ ∀ e ∈ j.on, e.1.Of es ∧ e.2.Of es := by
  unfold clause at h
  obtain ⟨joined, hjoined, h⟩ := except_bind_ok h
  obtain ⟨bindings, hbindings, h⟩ := except_bind_ok h
  obtain ⟨on, hon, h⟩ := except_bind_ok h
  cases h
  have hknown := hr joined (entity_mem hjoined).1
  have halias := joinedAlias_derived hr hs ht hjoined
  exact ⟨⟨joined, hknown, rfl⟩, halias,
    Entity.equalities_of hknown halias (groupBindings_of hr hs ht hbindings) hon⟩

theorem join_about (h : r.join sourceAlias targetAlias kind q = .ok ⟨⟩ q') (hq : q.About es) :
    q'.About es := by
  refine forM_keeps (P := Select.About es) (fun group _ q₁ q₂ hq₁ hstep => ?_) hq h
  obtain ⟨j, hj, rfl⟩ := joinGroup_ok hstep
  obtain ⟨htable, halias, hon⟩ := clause_of hr hs ht hj
  exact hq₁.addJoin (j := j.as kind) htable halias hon

end

end Relation

/-! ## Building the statement of a chain -/

section
variable {e : Entity} {aliasName : String} {q q' : Select}

theorem Entity.selectFields_about (he : e ∈ es) (ha : Derived es aliasName) {fields : List String}
    (h : e.selectFields aliasName fields q = .ok ⟨⟩ q') (hq : q.About es) : q'.About es := by
  refine forM_keeps (P := Select.About es) (fun field _ q₁ q₂ hq₁ hfield => ?_) hq h
  unfold Entity.selectField at hfield
  obtain ⟨x, q₃, hlift, hfield⟩ := step_bind_ok hfield
  obtain ⟨hx, rfl⟩ := step_lift_ok hlift
  rw [← step_modify_ok hfield]
  exact hq₁.addColumn (Entity.fieldExpr_of he ha hx)

end

/-- The entities that a chain is about: those of its sets and of its source, and those that the
relationships of its sets connect. -/
def ChainShape.entities (t : CommandTree) (shape : ChainShape) : List Entity :=
  ((shape.source.toList ++ shape.commands).filterMap t.get?).map Command.entity ++
    (shape.commands.filterMap t.get?).flatMap fun c => c.origin.toList.flatMap fun o =>
      o.relation.entities

namespace Plan

variable {t : CommandTree} {root c : Command} {projections : List (List String)} {kind : JoinKind}
  {q q' : Select} {shape : ChainShape} {chain : Chain}

section
variable (hc : c.entity ∈ es) (ha : Derived es c.aliasName)
include hc ha

theorem addPredicates_about {ps : List Predicate} (h : ps.forM (addPredicate c) q = .ok ⟨⟩ q')
    (hq : q.About es) : q'.About es := by
  refine forM_keeps (P := Select.About es) (fun p _ q₁ q₂ hq₁ hp => ?_) hq h
  unfold addPredicate at hp
  obtain ⟨x, q₃, hlift, hp⟩ := step_bind_ok hp
  obtain ⟨hx, rfl⟩ := step_lift_ok hlift
  rw [← step_modify_ok hp]
  refine hq₁.restrict fun y hy => ?_
  rw [Condition.exprs_predicate, List.mem_singleton] at hy
  rw [hy]
  exact Entity.fieldExpr_of hc ha hx

theorem addOrder_about (h : addOrder c q = .ok ⟨⟩ q') (hq : q.About es) : q'.About es := by
  refine forM_keeps (P := Select.About es) (fun term _ q₁ q₂ hq₁ hterm => ?_) hq h
  unfold Entity.orderByField at hterm
  obtain ⟨x, q₃, hlift, hterm⟩ := step_bind_ok hterm
  obtain ⟨hx, rfl⟩ := step_lift_ok hlift
  rw [← step_modify_ok hterm]
  exact hq₁.orderBy (Entity.fieldExpr_of hc ha hx) _

/-- A set is written, joined to a set whose alias is derived too. -/
theorem addCommand_about
    (hparent : ∀ o p, c.id ≠ root.id → c.origin = some o → t.get? o.parent = some p →
      Derived es p.aliasName ∧ ∀ e ∈ o.relation.entities, e ∈ es)
    (h : addCommand t root.id projections kind c q = .ok ⟨⟩ q') (hq : q.About es) : q'.About es := by
  obtain ⟨q₁, q₂, hjoined, hfields, hpredicates⟩ := addCommand_steps h
  have hq₁ : q₁.About es := by
    rcases hjoined with ⟨-, rfl⟩ | ⟨hid, o, p, ho, hp, hjoin⟩
    · exact hq
    · obtain ⟨hsource, hr⟩ := hparent o p hid ho hp
      exact Relation.join_about hr hsource ha hjoin hq
  exact addPredicates_about hc ha hpredicates (Entity.selectFields_about hc ha hfields hq₁)

end

theorem startChain_about (hroot : root.entity ∈ es) (ha : Derived es root.aliasName)
    (hsource : ∀ o p, root.origin = some o → t.get? o.parent = some p →
      p.entity ∈ es ∧ Derived es p.aliasName ∧ ∀ e ∈ o.relation.entities, e ∈ es)
    (h : startChain t root {} = .ok ⟨⟩ q) : q.About es := by
  unfold startChain at h
  cases ho : root.origin <;> rw [ho] at h
  case none =>
    rw [← step_set_ok h]
    exact Select.speaks_ofTable ⟨_, hroot, rfl⟩ ha
  case some o =>
    obtain ⟨⟨p, r⟩, q₁, hlift, h⟩ := step_bind_ok h
    obtain ⟨hof, rfl⟩ := step_lift_ok hlift
    obtain ⟨o', ho', hp, rfl⟩ := sourceOf_ok hof
    rw [ho] at ho'
    cases ho'
    obtain ⟨hentity, halias, hr⟩ := hsource o p ho hp
    obtain ⟨⟨⟩, q₁, hset, h⟩ := step_bind_ok h
    obtain ⟨⟨⟩, q₂, hfields, hjoin⟩ := step_bind_ok h
    have hbegin : q₁.About es := by
      rw [← step_set_ok hset]
      exact Select.speaks_ofTable ⟨_, hentity, rfl⟩ halias
    exact Relation.join_about hr halias ha hjoin
      (Entity.selectFields_about hentity halias hfields hbegin)

/-- The statement of a chain is about the entities of the chain. -/
theorem compile_about (ht : t.Grown) (hshape : shape ∈ t.chainsFrom 0)
    (h : compile t projections kind shape = .ok chain) : chain.query.About (shape.entities t) := by
  obtain ⟨-, root, hroot, hwrite⟩ := compile_ok h
  have hset : ∀ c ∈ (shape.source.toList ++ shape.commands).filterMap t.get?,
      c.entity ∈ shape.entities t ∧ Derived (shape.entities t) c.aliasName := by
    intro c hc
    have hentity : c.entity ∈ shape.entities t := List.mem_append_left _ (List.mem_map_of_mem hc)
    obtain ⟨i, -, hi⟩ := List.mem_filterMap.1 hc
    exact ⟨hentity, .of_isAlias hentity (ht.isAlias hi)⟩
  have hcommand : ∀ c ∈ shape.commands.filterMap t.get?,
      (c.entity ∈ shape.entities t ∧ Derived (shape.entities t) c.aliasName) ∧
        ∀ o, c.origin = some o → ∀ e ∈ o.relation.entities, e ∈ shape.entities t := by
    intro c hc
    refine ⟨hset c ?_, fun o ho e he => List.mem_append_right _ (List.mem_flatMap.2 ⟨c, hc, ?_⟩)⟩
    · rw [List.filterMap_append]
      exact List.mem_append_right _ hc
    · rw [ho]
      simpa using he
  have hmem : root ∈ shape.commands.filterMap t.get? :=
    List.mem_filterMap.2 ⟨_, CommandTree.root_mem_commands hshape, hroot⟩
  obtain ⟨⟨hrootEntity, hrootAlias⟩, hrootOrigin⟩ := hcommand root hmem
  unfold writeChain at hwrite
  obtain ⟨⟨⟩, q₀, hbegin, hwrite⟩ := step_bind_ok hwrite
  obtain ⟨⟨⟩, q₁, hcommands, hwrite⟩ := step_bind_ok hwrite
  obtain ⟨⟨⟩, q₂, horders, hpage⟩ := step_bind_ok hwrite
  have hstart : q₀.About (shape.entities t) := by
    refine startChain_about hrootEntity hrootAlias (fun o p ho hp => ?_) hbegin
    have hsource : p ∈ (shape.source.toList ++ shape.commands).filterMap t.get? := by
      refine List.mem_filterMap.2 ⟨o.parent, List.mem_append_left _ ?_, hp⟩
      rw [CommandTree.source_eq hshape hroot, Command.parent, ho]
      simp
    exact ⟨(hset p hsource).1, (hset p hsource).2, hrootOrigin o ho⟩
  have hsets : q₁.About (shape.entities t) := by
    refine forM_builds (P := fun _ => Select.About (shape.entities t)) ?_ hstart hcommands
    intro pre c post hsplit q₃ q₄ hq hstep
    obtain ⟨⟨hc, ha⟩, horigin⟩ := hcommand c (hsplit ▸ List.mem_append_right pre (List.mem_cons_self ..))
    refine addCommand_about hc ha (fun o p hid ho hp => ⟨?_, horigin o ho⟩) hstep hq
    have hbefore := (later_in_chain ht hshape hroot hsplit hid).1 o p ho hp
    exact (hcommand p (hsplit ▸ List.mem_append_left _ hbefore)).1.2
  have hordered : q₂.About (shape.entities t) := by
    refine forM_keeps (P := Select.About (shape.entities t)) (fun c hc q₃ q₄ hq horder => ?_) hsets horders
    exact addOrder_about (hcommand c hc).1.1 (hcommand c hc).1.2 horder hq
  rw [← step_modify_ok hpage]
  exact hordered.paginate _

end Plan

/-! ## Telling the names of a plan -/

/-- A statement whose aliases, where they are introduced and where they are used, are identifiers and
whose tables and columns are told to a dialect. -/
structure Sql.Select.Plain (q : Select) (d : Dialect) : Prop where
  aliases : ∀ a ∈ q.aliases, OrderTerm.isIdentifier a = true
  tables : ∀ name, .named name ∈ q.tables → d.Safe name
  columns : ∀ a name, .column a name ∈ q.exprs → OrderTerm.isIdentifier a = true ∧ d.Safe name

/-- An entity whose name is an identifier and whose table and columns are told to a dialect. -/
structure Entity.Plain (d : Dialect) (e : Entity) : Prop where
  name : OrderTerm.isIdentifier e.name = true
  table : d.Safe e.table
  columns : ∀ name ∈ e.columns.values, d.Safe name

instance (d : Dialect) : DecidablePred (Entity.Plain d) := fun e =>
  decidable_of_iff (OrderTerm.isIdentifier e.name = true ∧ d.Safe e.table ∧
    ∀ name ∈ e.columns.values, d.Safe name)
    ⟨fun h => ⟨h.1, h.2.1, h.2.2⟩, fun h => ⟨h.name, h.table, h.columns⟩⟩

/-- A statement about some entities is told exactly if it is plain. -/
theorem Sql.Select.About.told_iff {q : Select} (h : q.About es) {d : Dialect} :
    q.Told d ↔ q.Plain d := by
  rw [Select.told_iff]
  constructor
  · intro hsafe
    exact ⟨fun a ha => (hsafe.aliases a ha).1, fun name hname => hsafe.tables _ hname,
      fun a name hname => ⟨(hsafe.exprs _ hname).1.1, (hsafe.exprs _ hname).2⟩⟩
  · intro hplain
    refine ⟨fun table ht => ?_, fun a ha => ?_, fun x hx => ?_⟩
    · have hof := h.tables table ht
      cases table with
      | named name => exact hplain.tables name ht
      | verbatim text => exact hof.elim
    · exact (h.aliases a ha).bare_iff.2 (hplain.aliases a ha)
    · have hof := h.exprs x hx
      cases x with
      | verbatim text => exact hof.elim
      | column a name =>
        obtain ⟨ha, hname⟩ := hplain.columns a name hx
        exact ⟨hof.1.bare_iff.2 ha, hname⟩

/-- So it is if the entities are plain. -/
theorem Sql.Select.About.plain {q : Select} (h : q.About es) {d : Dialect}
    (hes : ∀ e ∈ es, e.Plain d) : q.Plain d := by
  have hnames : ∀ e ∈ es, OrderTerm.isIdentifier e.name = true := fun e he => (hes e he).name
  refine ⟨fun a ha => (h.aliases a ha).identifier hnames, fun name hname => ?_,
    fun a name hname => ?_⟩
  · obtain ⟨e, he, rfl⟩ := h.tables _ hname
    exact (hes e he).table
  · obtain ⟨ha, e, he, hcolumn⟩ := h.exprs _ hname
    exact ⟨ha.identifier hnames, (hes e he).columns name hcolumn⟩

namespace Plan

/-- The labels of every statement of a plan are told to every dialect. All of the statement is, its text
being read as its names in their places, exactly if its aliases are identifiers and its tables and columns
can be told; in particular if that is so with the entities that its chain is about. -/
theorem names_told {t : CommandTree} {cfg : Settings} {s s' : Schema} {plan : Plan} (ht : t.Grown)
    (hmake : make t cfg s = .ok plan s') : ∀ chain ∈ plan.chains, ∀ d : Dialect,
      (∀ l ∈ chain.query.labels, d.Spells l (d.quoteLabel l)) ∧
      (chain.query.Told d ↔ chain.query.Plain d) ∧
      ((∀ e ∈ chain.entities t, e.Plain d) → chain.query.Told d) := by
  obtain ⟨-, hmade⟩ := make_ok (P := fun _ => True) (fun _ _ _ _ _ _ => trivial) trivial hmake
  intro chain hchain d
  obtain ⟨shape, hshape, hcompile⟩ := forall₂_mem_right hmade.chains chain hchain
  obtain ⟨rfl, -⟩ := compile_ok hcompile
  have habout := compile_about ht hshape hcompile
  exact ⟨fun l _ => spells_quoteLabel d l, habout.told_iff,
    fun hplain => habout.told_iff.2 (habout.plain hplain)⟩

/-- Receipts, in a table and with a column that are reserved. -/
def receipt : Entity where
  name := "RECEIPT"
  table := "order"
  columns := .ofList [("id", "id"), ("kind", "Group")]
  primaryKey := ["id"]
  foreignKeys := .empty
  primaryKey_ne_nil := Schema.id_ne_nil
  primaryKey_declared := by decide
  foreignKeys_declared := by decide

/-- The items of receipts, with a column whose name holds a blank and quotes. -/
def item : Entity where
  name := "ITEM"
  table := "item"
  columns := .ofList [("id", "id"), ("receipt_id", "the \x22receipt\x22")]
  primaryKey := ["id"]
  foreignKeys := .empty
  primaryKey_ne_nil := Schema.id_ne_nil
  primaryKey_declared := by decide
  foreignKeys_declared := by decide

/-- The statements of receipts and of their items. -/
def receiptTexts : List String := [
  "SELECT RECEIPT1.id AS \x22RECEIPT1:id\x22, RECEIPT1.\x22Group\x22 AS \x22RECEIPT1:kind\x22" ++
    " FROM \x22order\x22 AS RECEIPT1",
  "SELECT RECEIPT1.id AS \x22RECEIPT1:id\x22, ITEM2.id AS \x22ITEM2:id\x22," ++
    " ITEM2.\x22the \x22\x22receipt\x22\x22\x22 AS \x22ITEM2:receipt_id\x22" ++
    " FROM \x22order\x22 AS RECEIPT1 INNER JOIN item AS ITEM2 ON" ++
    " ITEM2.\x22the \x22\x22receipt\x22\x22\x22 = RECEIPT1.id"]

/-- Receipts with their items are told, and where quotes are needed they are there. -/
theorem names_told_receipts : ∃ t s plan s', t.Grown ∧ make t {} s = .ok plan s' ∧
    plan.chains.map (fun chain => (chain.query.build .postgres).text) = receiptTexts ∧
    ∀ chain ∈ plan.chains, (∀ e ∈ chain.entities t, e.Plain .postgres) ∧
      chain.query.Told .postgres := by
  have hfacts : ((pair? (.ofLists [receipt, item] []) receipt "ITEMS").any fun (t, s) =>
      (made? t {} s).any fun plan => decide (plan.chains.map
        (fun chain => (chain.query.build .postgres).text) = receiptTexts ∧
        ∀ chain ∈ plan.chains, ∀ e ∈ chain.entities t, e.Plain .postgres)) = true := by
    decide +kernel
  obtain ⟨⟨t, s⟩, hpair, hfacts⟩ := (Option.any_eq_true _ _).1 hfacts
  obtain ⟨plan, hmade, hfacts⟩ := (Option.any_eq_true _ _).1 hfacts
  obtain ⟨htexts, hplain⟩ := of_decide_eq_true hfacts
  obtain ⟨-, hasked⟩ := pair?_some (.ofLists _ _) (by decide +kernel) hpair
  obtain ⟨s', hmake⟩ := made?_some hmade
  exact ⟨t, s, plan, s', hasked.grown, hmake, htexts, fun chain hchain =>
    ⟨hplain chain hchain, (names_told hasked.grown hmake chain hchain .postgres).2.2 (hplain chain hchain)⟩⟩

/-- Authors with the code of their second factor, whose column has a name that starts with a digit. -/
def member : Entity where
  name := "AUTHOR"
  table := "author"
  columns := .ofList [("id", "id"), ("code", "2fa")]
  primaryKey := ["id"]
  foreignKeys := .empty
  primaryKey_ne_nil := Schema.id_ne_nil
  primaryKey_declared := by decide
  foreignKeys_declared := by decide

/-- The column stands bare in the statement of a set of authors. -/
theorem name_untold : ¬ ∀ (t : CommandTree) (cfg : Settings) (s s' : Schema) (plan : Plan),
    s.Reachable → t.Grown → t.Resolved s → make t cfg s = .ok plan s' →
    ∀ chain ∈ plan.chains, ∀ d, chain.query.Told d := by
  intro h
  have hfacts : ((made? (.start 1 member) {} (.ofLists [member] [])).any fun plan => decide
      (plan.chains.any fun chain => (chain.query.build .postgres).text =
        "SELECT AUTHOR1.id AS \x22AUTHOR1:id\x22, AUTHOR1.2fa AS \x22AUTHOR1:code\x22" ++
          " FROM author AS AUTHOR1" ∧ .column "AUTHOR1" "2fa" ∈ chain.query.exprs)) = true := by
    decide +kernel
  obtain ⟨plan, hmade, hfacts⟩ := (Option.any_eq_true _ _).1 hfacts
  obtain ⟨chain, hchain, hfacts⟩ := List.any_eq_true.1 (of_decide_eq_true hfacts)
  obtain ⟨-, hcolumn⟩ := of_decide_eq_true hfacts
  obtain ⟨s', hmake⟩ := made?_some hmade
  have hresolved : CommandTree.Resolved (.start 1 member) (.ofLists [member] []) := by
    intro i c o hc ho
    have hlt := CommandTree.get?_lt hc
    obtain rfl : i = 0 := Nat.lt_one_iff.1 hlt
    cases hc
    cases ho
  have htold := h _ _ _ s' plan (.ofLists _ _) (.start 1 member) hresolved hmake chain hchain .postgres
  have hsafe := (Select.told_iff.1 htold).exprs _ hcolumn
  exact absurd hsafe.2 (by decide)

end Plan

end GraphLoad
