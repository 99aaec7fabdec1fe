/-
The statement of a chain. What compiling writes is settled step by step: which columns it selects,
what it demands of the rows of its root, and how its aliases are joined. Every set of the chain comes
to stand in the statement as its relationship links it to the set it is loaded from, and nothing that
the first table holds gets lost behind the root.
-/
import GraphLoad.Proofs.Plan.Making
import GraphLoad.Proofs.Relation.Joining
import GraphLoad.Proofs.Sql.Spans

namespace GraphLoad

open Sql

/-! ## Columns -/

/-- The column of a field of a set. -/
def Command.IsColumn (c : Command) (field : String) (column : Column) : Prop :=
  ∃ name, c.entity.columns.get? field = some name ∧
    column = ⟨.column c.aliasName name, label c.aliasName field⟩

/-- A statement that selects the fields of some sets, and nothing else. Of fields that share a label it
selects the first. -/
structure Selects (fields : List (Command × String)) (q : Select) : Prop where
  listed : ∀ column ∈ q.columns, ∃ p,
    fields.find? (fun p => label p.1.aliasName p.2 == column.label) = some p ∧ p.1.IsColumn p.2 column
  found : ∀ p ∈ fields, ∃ column ∈ q.columns, column.label = label p.1.aliasName p.2
  declared : ∀ p ∈ fields, ∃ name, p.1.entity.columns.get? p.2 = some name

/-- Statements over the same tables under the same condition. -/
structure SameRows (q q' : Select) : Prop where
  source : q'.source = q.source
  joins : q'.joins = q.joins
  condition : q'.condition = q.condition

theorem SameRows.refl (q : Select) : SameRows q q := ⟨rfl, rfl, rfl⟩

theorem SameRows.trans {q q' q'' : Select} (h : SameRows q q') (h' : SameRows q' q'') :
    SameRows q q'' :=
  ⟨h'.source.trans h.source, h'.joins.trans h.joins, h'.condition.trans h.condition⟩

theorem SameRows.aliases {q q' : Select} (h : SameRows q q') : q'.aliases = q.aliases := by
  unfold Select.aliases
  rw [h.source, h.joins]

theorem SameRows.envs {q q' : Select} (h : SameRows q q') (db : Database) :
    db.envs q' = db.envs q :=
  Database.envs_congr h.source h.joins

theorem selects_congr {fields : List (Command × String)} {q q' : Select}
    (h : Selects fields q) (hcolumns : q'.columns = q.columns) : Selects fields q' := by
  constructor
  · rw [hcolumns]; exact h.listed
  · rw [hcolumns]; exact h.found
  · exact h.declared

/-- A label that is selected already is not selected again. -/
theorem selects_addColumn {c : Command} {field name : String} {q : Select}
    {fields : List (Command × String)} (hq : Selects fields q)
    (hname : c.entity.columns.get? field = some name) :
    Selects (fields ++ [(c, field)])
      (q.addColumn ⟨.column c.aliasName name, label c.aliasName field⟩) := by
  have hdeclared : ∀ p ∈ fields ++ [(c, field)], ∃ name,
      p.1.entity.columns.get? p.2 = some name := by
    intro p hp
    rcases List.mem_append.1 hp with hp | hp
    · exact hq.declared p hp
    · rw [List.mem_singleton.1 hp]
      exact ⟨name, hname⟩
  unfold Select.addColumn
  split
  · rename_i hany
    refine ⟨fun column hcolumn => ?_, fun p hp => ?_, hdeclared⟩
    · obtain ⟨p, hp, hcol⟩ := hq.listed column hcolumn
      exact ⟨p, by rw [List.find?_append, hp, Option.some_or], hcol⟩
    · rcases List.mem_append.1 hp with hp | hp
      · exact hq.found p hp
      · obtain ⟨column, hcolumn, hlabel⟩ := List.any_eq_true.1 hany
        rw [List.mem_singleton.1 hp]
        exact ⟨column, hcolumn, beq_iff_eq.1 hlabel⟩
  · rename_i hnew
    refine ⟨fun column hcolumn => ?_, fun p hp => ?_, hdeclared⟩
    · rcases List.mem_append.1 hcolumn with hcolumn | hcolumn
      · obtain ⟨p, hp, hcol⟩ := hq.listed column hcolumn
        exact ⟨p, by rw [List.find?_append, hp, Option.some_or], hcol⟩
      · -- no field before has the label, or it would have been selected
        have hnone : fields.find? (fun p =>
            label p.1.aliasName p.2 == label c.aliasName field) = none := by
          refine List.find?_eq_none.2 fun p hp hlabel => hnew ?_
          obtain ⟨old, hold, heq⟩ := hq.found p hp
          exact List.any_eq_true.2 ⟨old, hold, by rw [heq]; exact hlabel⟩
        rw [List.mem_singleton.1 hcolumn]
        refine ⟨(c, field), ?_, name, hname, rfl⟩
        rw [List.find?_append, hnone, Option.none_or, List.find?_singleton, if_pos (beq_self_eq_true _)]
    · rcases List.mem_append.1 hp with hp | hp
      · obtain ⟨column, hcolumn, hlabel⟩ := hq.found p hp
        exact ⟨column, List.mem_append_left _ hcolumn, hlabel⟩
      · rw [List.mem_singleton.1 hp]
        exact ⟨_, List.mem_append_right _ (List.mem_singleton_self _), rfl⟩

theorem selectField_ok {c : Command} {field : String} {q q' : Select}
    (h : c.entity.selectField c.aliasName field q = .ok ⟨⟩ q') :
    SameRows q q' ∧ ∀ fields, Selects fields q → Selects (fields ++ [(c, field)]) q' := by
  unfold Entity.selectField at h
  obtain ⟨x, q₁, hlift, h⟩ := step_bind_ok h
  obtain ⟨hx, rfl⟩ := step_lift_ok hlift
  obtain ⟨name, hname, rfl⟩ := Entity.fieldExpr_ok hx
  rw [← step_modify_ok h]
  refine ⟨?_, fun fields hq => selects_addColumn hq hname⟩
  unfold Select.addColumn
  split <;> exact ⟨rfl, rfl, rfl⟩

theorem selectFields_ok {c : Command} {names : List String} {q q' : Select}
    (h : c.entity.selectFields c.aliasName names q = .ok ⟨⟩ q') :
    SameRows q q' ∧ ∀ fields, Selects fields q →
      Selects (fields ++ names.map fun field => (c, field)) q' := by
  refine forM_builds (P := fun done q₁ => SameRows q q₁ ∧ ∀ fields, Selects fields q →
    Selects (fields ++ done.map fun field => (c, field)) q₁) ?_ ?_ h
  · rintro pre field post - q₁ q₂ ⟨hsame, hselects⟩ hfield
    obtain ⟨hsame', hselects'⟩ := selectField_ok hfield
    refine ⟨hsame.trans hsame', fun fields hq => ?_⟩
    rw [List.map_append, ← List.append_assoc]
    exact hselects' _ (hselects fields hq)
  · refine ⟨.refl q, fun fields hq => ?_⟩
    rw [List.map_nil, List.append_nil]
    exact hq

/-! ## Conditions -/

/-- Whether a row of a set's table passes its predicates. -/
def Command.Passes (db : Database) (c : Command) (u : Tuple) : Prop :=
  ∀ p ∈ c.modifiers.predicates, ∃ name, c.entity.columns.get? p.field = some name ∧
    db.truth (Env.empty.bind c.aliasName (some u)) (p.on (.column c.aliasName name)) = some true

/-- A statement whose condition is that the rows of a set pass some of its predicates. -/
def Demands (db : Database) (c : Command) (predicates : List Predicate) (q : Select) : Prop :=
  ∀ env u, env c.aliasName = some u → (db.truth env q.condition = some true ↔
    ∀ p ∈ predicates, ∃ name, c.entity.columns.get? p.field = some name ∧
      db.truth (Env.empty.bind c.aliasName (some u)) (p.on (.column c.aliasName name)) = some true)

namespace Plan

theorem addPredicate_ok {db : Database} {c : Command} {p : Predicate} {q q' : Select}
    (h : addPredicate c p q = .ok ⟨⟩ q') :
    q'.source = q.source ∧ q'.joins = q.joins ∧ q'.columns = q.columns ∧
      ∀ done, Demands db c done q → Demands db c (done ++ [p]) q' := by
  unfold addPredicate at h
  obtain ⟨x, q₁, hlift, h⟩ := step_bind_ok h
  obtain ⟨hx, rfl⟩ := step_lift_ok hlift
  obtain ⟨name, hname, rfl⟩ := Entity.fieldExpr_ok hx
  rw [← step_modify_ok h]
  refine ⟨rfl, rfl, rfl, fun done hq env u hu => ?_⟩
  have hsame : db.truth env (p.on (.column c.aliasName name)) =
      db.truth (Env.empty.bind c.aliasName (some u)) (p.on (.column c.aliasName name)) :=
    (Condition.reads_predicate p c.aliasName name).truth_congr (by rw [hu, Env.bind_self])
  show db.truth env (q.condition.and (p.on (.column c.aliasName name))) = some true ↔ _
  rw [Condition.truth_and, both_eq_true, hq env u hu, hsame]
  simp only [List.mem_append, List.mem_singleton, or_imp, forall_and, forall_eq, hname,
    Option.some.injEq, exists_eq_left']

theorem addPredicates_ok {db : Database} {c : Command} {ps : List Predicate} {q q' : Select}
    (h : ps.forM (addPredicate c) q = .ok ⟨⟩ q') :
    q'.source = q.source ∧ q'.joins = q.joins ∧ q'.columns = q.columns ∧
      (Demands db c [] q → Demands db c ps q') := by
  refine forM_builds (P := fun done q₁ => q₁.source = q.source ∧ q₁.joins = q.joins ∧
    q₁.columns = q.columns ∧ (Demands db c [] q → Demands db c done q₁)) ?_
    ⟨rfl, rfl, rfl, id⟩ h
  rintro pre p post - q₁ q₂ ⟨hsource, hjoins, hcolumns, hdemands⟩ hp
  obtain ⟨hsource', hjoins', hcolumns', hdemands'⟩ := addPredicate_ok hp
  exact ⟨hsource'.trans hsource, hjoins'.trans hjoins, hcolumns'.trans hcolumns,
    fun hq => hdemands' pre (hdemands hq)⟩

/-! ## Orderings -/

theorem addOrder_ok {c : Command} {q q' : Select} (h : addOrder c q = .ok ⟨⟩ q') :
    SameRows q q' ∧ q'.columns = q.columns := by
  refine forM_keeps (P := fun q₁ => SameRows q q₁ ∧ q₁.columns = q.columns)
    (fun term _ q₁ q₂ hq₁ hterm => ?_) ⟨.refl q, rfl⟩ h
  unfold Entity.orderByField at hterm
  obtain ⟨x, q₃, hlift, hterm⟩ := step_bind_ok hterm
  obtain ⟨-, rfl⟩ := step_lift_ok hlift
  rw [← step_modify_ok hterm]
  exact ⟨hq₁.1.trans ⟨rfl, rfl, rfl⟩, hq₁.2⟩

end Plan

/-! ## Tables -/

/-- A relationship whose join mapping was made of field pairs. -/
def Relation.Mapped (r : Relation) : Prop :=
  ∃ catalog pairs, Relation.joinMapping catalog r.source r.target r.name pairs =
    .ok (r.pivot, r.mapping)

theorem Relation.join_way (db : Database) {r : Relation} (hr : r.Mapped)
    {sourceAlias targetAlias : String} {kind : JoinKind} {q q' : Select}
    (h : r.join sourceAlias targetAlias kind q = .ok ⟨⟩ q') (hsource : sourceAlias ∈ q.aliases)
    (hnodup : q'.aliases.Nodup) :
    ∃ js, q' = q.addJoins js ∧ IsWay sourceAlias targetAlias js ∧ js ≠ [] ∧
      (∀ j ∈ js, j.kind = kind) ∧
      db.Linked r sourceAlias targetAlias = db.Leads sourceAlias js := by
  obtain ⟨catalog, pairs, hmapping⟩ := hr
  obtain ⟨js, hjs, rfl⟩ := join_ok h
  change (q.addJoins _).aliases.Nodup at hnodup
  rw [Select.aliases_addJoins, aliases_as] at hnodup
  obtain ⟨-, hjoins, hapart⟩ := List.nodup_append.1 hnodup
  have hpath : (sourceAlias :: js.map Join.aliasName).Nodup :=
    List.nodup_cons.2 ⟨fun hmem => hapart _ hsource _ hmem rfl, hjoins⟩
  obtain ⟨hway, hne, -⟩ := isWay_clauses hmapping hjs hpath
  refine ⟨js.map (·.as kind), rfl, isWay_as hway, ?_, fun j hj => ?_, linked_eq hjs kind⟩
  · rw [ne_eq, List.map_eq_nil_iff]
    exact hne
  · obtain ⟨k, -, rfl⟩ := List.mem_map.1 hj
    rfl

/-- The edge by which a set is joined to the one it is loaded from. -/
def CommandTree.edge? (t : CommandTree) (db : Database) (c : Command) : Option Edge :=
  c.origin.bind fun o => (t.get? o.parent).map fun p =>
    ⟨p.aliasName, c.aliasName, db.Linked o.relation p.aliasName c.aliasName⟩

namespace Plan

variable {db : Database} {t : CommandTree} {source : Option Command} {root : Command}
  {base q q' : Select} {done : List Command}

/-- A statement under construction into which the sets `done` have been written, the root first,
where `base` was the statement when it had just the root. -/
structure Stage (db : Database) (t : CommandTree) (source : Option Command) (root : Command)
    (base : Select) (done : List Command) (q : Select) : Prop where
  widens : db.Widens base q
  grown : ∀ b ∈ base.aliases, b ∈ q.aliases
  known : ∀ c ∈ source.toList ++ done, c.aliasName ∈ q.aliases
  starts : ∀ c ∈ done, ∀ e, t.edge? db c = some e → e.start ∈ q.aliases
  anchored : (source.getD root).aliasName ∈ q.aliases
  distinct : ((source.toList ++ done).map Command.aliasName).Nodup
  spans : Database.Spans (source.getD root).aliasName (done.filterMap (t.edge? db)) (db.envs q)

theorem Stage.congr (h : Stage db t source root base done q) (hsource : q'.source = q.source)
    (hjoins : q'.joins = q.joins) : Stage db t source root base done q' := by
  have haliases : q'.aliases = q.aliases := by
    unfold Select.aliases
    rw [hsource, hjoins]
  have henvs : db.envs q' = db.envs q := Database.envs_congr hsource hjoins
  constructor
  · exact ⟨by rw [henvs]; exact h.widens.keeps, by rw [henvs]; exact h.widens.restricts⟩
  · rw [haliases]; exact h.grown
  · rw [haliases]; exact h.known
  · rw [haliases]; exact h.starts
  · rw [haliases]; exact h.anchored
  · exact h.distinct
  · rw [henvs]; exact h.spans

theorem edge?_some (db : Database) {c p : Command} {o : Origin} (ho : c.origin = some o)
    (hp : t.get? o.parent = some p) : t.edge? db c =
      some ⟨p.aliasName, c.aliasName, db.Linked o.relation p.aliasName c.aliasName⟩ := by
  rw [CommandTree.edge?, ho, Option.bind_some, hp, Option.map_some]

theorem edge?_eq_some {c : Command} {e : Edge} (h : t.edge? db c = some e) :
    ∃ o p, c.origin = some o ∧ t.get? o.parent = some p ∧
      e = ⟨p.aliasName, c.aliasName, db.Linked o.relation p.aliasName c.aliasName⟩ := by
  obtain ⟨o, ho, h⟩ := Option.bind_eq_some_iff.1 h
  obtain ⟨p, hp, rfl⟩ := Option.map_eq_some_iff.1 h
  exact ⟨o, p, ho, hp, rfl⟩

/-- A further set is joined to one that stands in the statement. -/
theorem Stage.addSet (h : Stage db t source root base done q) {c p : Command} {o : Origin}
    (hr : o.relation.Mapped) (ho : c.origin = some o) (hp : t.get? o.parent = some p)
    (hmem : p ∈ done) (hjoin : o.relation.join p.aliasName c.aliasName .left q = .ok ⟨⟩ q')
    (hnodup : q'.aliases.Nodup) : Stage db t source root base (done ++ [c]) q' := by
  have hknown := h.known p (List.mem_append_right _ hmem)
  obtain ⟨js, rfl, hway, hne, hkinds, hlinked⟩ := Relation.join_way db hr hjoin hknown hnodup
  have haliases := hnodup
  rw [Select.aliases_addJoins] at haliases
  have hgrown : ∀ b ∈ q.aliases, b ∈ (q.addJoins js).aliases := by
    intro b hb
    rw [Select.aliases_addJoins]
    exact List.mem_append_left _ hb
  -- the way ends at the alias of the set, which is one of the new ones
  have hnew := hway.mem_joined hne
  have hin : c.aliasName ∈ (q.addJoins js).aliases := by
    rw [Select.aliases_addJoins]
    exact List.mem_append_right _ hnew
  have hedge := edge?_some db ho hp
  constructor
  case widens => exact h.widens.addJoins h.grown hnodup hkinds
  case grown => exact fun b hb => hgrown b (h.grown b hb)
  case known =>
    intro d hd
    rw [← List.append_assoc] at hd
    rcases List.mem_append.1 hd with hd | hd
    · exact hgrown _ (h.known d hd)
    · rw [List.mem_singleton.1 hd]
      exact hin
  case starts =>
    intro d hd e he
    rcases List.mem_append.1 hd with hd | hd
    · exact hgrown _ (h.starts d hd e he)
    · rw [List.mem_singleton.1 hd, hedge] at he
      cases he
      exact hgrown _ hknown
  case anchored => exact hgrown _ h.anchored
  case distinct =>
    rw [← List.append_assoc, List.map_append, List.nodup_append]
    refine ⟨h.distinct, List.nodup_singleton _, fun a ha b hb => ?_⟩
    obtain ⟨d, hd, rfl⟩ := List.mem_map.1 ha
    rw [List.map_singleton, List.mem_singleton] at hb
    rw [hb]
    exact (List.nodup_append.1 haliases).2.2 _ (h.known d hd) _ hnew
  case spans =>
    rw [List.filterMap_append, List.filterMap_cons_some hedge, List.filterMap_nil, hlinked]
    refine h.spans.addJoins h.anchored (fun e he => ?_) hknown hway hnodup (.inr hkinds)
    obtain ⟨d, hd, he⟩ := List.mem_filterMap.1 he
    refine ⟨h.starts d hd e he, ?_⟩
    obtain ⟨o', p', -, -, rfl⟩ := edge?_eq_some he
    exact h.known d (List.mem_append_right _ hd)

/-! ## The statement of a chain -/

theorem sourceOf_ok {c p : Command} {r : Relation} (h : sourceOf t c = .ok (p, r)) :
    ∃ o, c.origin = some o ∧ t.get? o.parent = some p ∧ r = o.relation := by
  unfold sourceOf at h
  cases ho : c.origin <;> rw [ho] at h
  case none => cases h
  case some o =>
    dsimp only at h
    cases hp : t.get? o.parent <;> rw [hp] at h <;> cases h
    exact ⟨o, rfl, hp, rfl⟩

/-- What stands under the first alias of a statement, and under that of its root. -/
structure Begun (db : Database) (source : Option Command) (root : Command) (q : Select) : Prop where
  first : source = none → (∀ env ∈ db.envs q, ∃ u ∈ db.tuples (.named root.entity.table),
      env root.aliasName = some u) ∧
    ∀ u ∈ db.tuples (.named root.entity.table), ∃ env ∈ db.envs q, env root.aliasName = some u
  later : ∀ p, source = some p → (∀ env ∈ db.envs q, (∃ u ∈ db.tuples (.named p.entity.table),
      env p.aliasName = some u) ∧ ∃ y, env root.aliasName = some y) ∧
    ∀ o, root.origin = some o → ∀ u ∈ db.tuples (.named p.entity.table), ∀ y,
      db.Linked o.relation p.aliasName root.aliasName u y →
      ∃ env ∈ db.envs q, env p.aliasName = some u ∧ env root.aliasName = some y

theorem Begun.widen (h : Begun db source root base) (hwidens : db.Widens base q)
    (hroot : root.aliasName ∈ base.aliases)
    (hsource : ∀ p, source = some p → p.aliasName ∈ base.aliases) : Begun db source root q := by
  constructor
  case first =>
    intro hnone
    obtain ⟨hall, hsome⟩ := h.first hnone
    refine ⟨fun env henv => ?_, fun u hu => ?_⟩
    · obtain ⟨env₀, h₀, heq⟩ := hwidens.restricts env henv
      rw [heq _ hroot]
      exact hall env₀ h₀
    · obtain ⟨env₀, h₀, hu₀⟩ := hsome u hu
      obtain ⟨env, henv, heq⟩ := hwidens.keeps env₀ h₀
      exact ⟨env, henv, by rw [heq _ hroot, hu₀]⟩
  case later =>
    intro p hp
    obtain ⟨hall, hsome⟩ := h.later p hp
    refine ⟨fun env henv => ?_, fun o ho u hu y hy => ?_⟩
    · obtain ⟨env₀, h₀, heq⟩ := hwidens.restricts env henv
      rw [heq _ hroot, heq _ (hsource p hp)]
      exact hall env₀ h₀
    · obtain ⟨env₀, h₀, hu₀, hy₀⟩ := hsome o ho u hu y hy
      obtain ⟨env, henv, heq⟩ := hwidens.keeps env₀ h₀
      exact ⟨env, henv, by rw [heq _ (hsource p hp), hu₀], by rw [heq _ hroot, hy₀]⟩

theorem envs_ofTable {table : Table} {aliasName : String} {env : Env} :
    env ∈ db.envs (Select.ofTable table aliasName) ↔
      ∃ u ∈ db.tuples table, env = Env.empty.bind aliasName (some u) := by
  unfold Database.envs Select.ofTable
  simp only [Database.joinAll, List.mem_flatMap, List.mem_singleton]

theorem selects_ofTable (table : Table) (aliasName : String) :
    Selects [] (Select.ofTable table aliasName) :=
  ⟨fun _ h => (nomatch h), fun _ h => (nomatch h), fun _ h => nomatch h⟩

/-- The statement of a chain starts with everything that its first part asks for. -/
structure Started (db : Database) (t : CommandTree) (source : Option Command) (root : Command)
    (q : Select) : Prop where
  stage : Stage db t source root q [root] q
  begun : Begun db source root q
  condition : q.condition = .always
  selects :
    Selects (source.toList.flatMap fun p => p.entity.primaryKey.map fun field => (p, field)) q

/-- A chain without a source starts from the table of its root. -/
theorem startChain_first (h : startChain t root {} = .ok ⟨⟩ q) (ho : root.origin = none) :
    Started db t none root q := by
  unfold startChain at h
  rw [ho] at h
  rw [← step_set_ok h]
  have halias : root.aliasName ∈
      (Select.ofTable (.named root.entity.table) root.aliasName).aliases :=
    List.mem_cons_self ..
  have hedge : t.edge? db root = none := by rw [CommandTree.edge?, ho, Option.bind_none]
  refine ⟨?stage, ?begun, rfl, selects_ofTable ..⟩
  case stage =>
    refine ⟨.refl .., fun _ hb => hb, fun c hc => ?_, fun c hc e he => ?_, halias,
      List.nodup_singleton _, ?_⟩
    · rw [List.mem_singleton.1 hc]; exact halias
    · rw [List.mem_singleton.1 hc, hedge] at he; cases he
    · rw [List.filterMap_cons_none hedge]; exact Database.spans_nil ..
  case begun =>
    refine ⟨fun _ => ⟨fun env henv => ?_, fun u hu => ?_⟩, fun p hp => nomatch hp⟩
    · obtain ⟨u, hu, rfl⟩ := envs_ofTable.1 henv
      exact ⟨u, hu, Env.bind_self ..⟩
    · exact ⟨_, envs_ofTable.2 ⟨u, hu, rfl⟩, Env.bind_self ..⟩

/-- Joined by the way to the root, the rows of the source bring those that they are linked to. -/
theorem begun_of_way {o : Origin} {p : Command} {js : List Join}
    (hbegin : ∀ env, env ∈ db.envs q ↔ ∃ u ∈ db.tuples (.named p.entity.table),
      env = Env.empty.bind p.aliasName (some u)) (ho : root.origin = some o)
    (hway : IsWay p.aliasName root.aliasName js) (hkinds : ∀ j ∈ js, j.kind = .inner)
    (hnodup : (p.aliasName :: js.map Join.aliasName).Nodup)
    (hlinked : db.Linked o.relation p.aliasName root.aliasName = db.Leads p.aliasName js) :
    Begun db (some p) root (q.addJoins js) := by
  obtain ⟨hapart, hjoins⟩ := List.nodup_cons.1 hnodup
  refine ⟨fun hnone => (nomatch hnone), fun p' hp' => ?_⟩
  cases hp'
  rw [Database.envs_addJoins]
  refine ⟨fun env henv => ?_, fun o' ho' u hu y hy => ?_⟩
  · obtain ⟨env₁, h₁, hjoinAll⟩ := List.mem_flatMap.1 henv
    obtain ⟨u, hu, rfl⟩ := (hbegin env₁).1 h₁
    refine ⟨⟨u, hu, ?_⟩, Database.exists_of_inner hway hjoins hkinds (Env.bind_self ..) hjoinAll⟩
    rw [Database.joinAll_of_not_mem hjoinAll hapart, Env.bind_self]
  · rw [ho] at ho'
    cases ho'
    rw [hlinked] at hy
    obtain ⟨env, henv, hend⟩ := Database.mem_joinAll_of_leads hway hnodup
      (Env.bind_self Env.empty p.aliasName (some u)) hy
    refine ⟨env, List.mem_flatMap.2 ⟨_, (hbegin _).2 ⟨u, hu, rfl⟩, henv⟩, ?_, hend⟩
    rw [Database.joinAll_of_not_mem henv hapart, Env.bind_self]

/-- Any other chain starts from the table of its source, to which that of its root is joined. -/
theorem startChain_later (h : startChain t root {} = .ok ⟨⟩ q) (hnodup : q.aliases.Nodup)
    {o : Origin} {p : Command} (ho : root.origin = some o) (hp : t.get? o.parent = some p)
    (hr : o.relation.Mapped) : Started db t (some p) root q := by
  unfold startChain at h
  rw [ho] at h
  obtain ⟨⟨p', r⟩, q₁, hlift, h⟩ := step_bind_ok h
  obtain ⟨hsource, rfl⟩ := step_lift_ok hlift
  obtain ⟨o', ho', hp', rfl⟩ := sourceOf_ok hsource
  rw [ho] at ho'
  cases ho'
  rw [hp] at hp'
  cases hp'
  obtain ⟨⟨⟩, q₁, hset, h⟩ := step_bind_ok h
  have hq₁ := step_set_ok hset
  subst hq₁
  obtain ⟨⟨⟩, q₂, hfields, hjoin⟩ := step_bind_ok h
  obtain ⟨hsame, hselects⟩ := selectFields_ok hfields
  have hbegin : ∀ env, env ∈ db.envs q₂ ↔ ∃ u ∈ db.tuples (.named p.entity.table),
      env = Env.empty.bind p.aliasName (some u) := by
    intro env
    rw [hsame.envs]
    exact envs_ofTable
  have haliases : q₂.aliases = [p.aliasName] := hsame.aliases
  have hin : p.aliasName ∈ q₂.aliases := by rw [haliases]; exact List.mem_singleton_self _
  obtain ⟨js, rfl, hway, hne, hkinds, hlinked⟩ := Relation.join_way db hr hjoin hin hnodup
  have haliases' : (q₂.addJoins js).aliases = p.aliasName :: js.map Join.aliasName := by
    rw [Select.aliases_addJoins, haliases, List.singleton_append]
  have hroot := hway.mem_joined hne
  have hpath := hnodup
  rw [haliases'] at hpath
  have hedge := edge?_some db ho hp
  have hknown : ∀ c ∈ (some p).toList ++ [root], c.aliasName ∈ (q₂.addJoins js).aliases := by
    intro c hc
    rw [haliases']
    rcases List.mem_cons.1 hc with rfl | hc
    · exact List.mem_cons_self ..
    · rw [List.mem_singleton.1 hc]
      exact List.mem_cons_of_mem _ hroot
  refine ⟨?stage, ?begun, hsame.condition, ?selects⟩
  case stage =>
    refine ⟨.refl .., fun _ hb => hb, hknown, fun c hc e he => ?_, hknown p (List.mem_cons_self ..),
      ?_, ?_⟩
    · rw [List.mem_singleton.1 hc, hedge] at he
      cases he
      exact hknown p (List.mem_cons_self ..)
    · refine List.nodup_cons.2 ⟨fun hmem => ?_, List.nodup_singleton _⟩
      rw [show p.aliasName = root.aliasName from List.mem_singleton.1 hmem] at hpath
      exact (List.nodup_cons.1 hpath).1 hroot
    · rw [List.filterMap_cons_some hedge, List.filterMap_nil, hlinked]
      exact (Database.spans_nil p.aliasName _).addJoins hin (fun _ he => nomatch he) hin hway hnodup
        (.inl rfl)
  case begun =>
    exact begun_of_way hbegin ho hway hkinds hpath hlinked
  case selects =>
    rw [Option.toList_some, List.flatMap_cons, List.flatMap_nil, List.append_nil]
    exact selects_congr (hselects [] (selects_ofTable ..)) rfl

/-- The fields that a set contributes to a statement. -/
def fieldsOf (projections : List (List String)) (c : Command) : List (Command × String) :=
  (projections[c.id]?.getD []).map fun field => (c, field)

/-- What the statement of a chain says of its sets. -/
structure Written (db : Database) (t : CommandTree) (projections : List (List String))
    (source : Option Command) (root : Command) (commands : List Command) (q : Select) : Prop where
  distinct : ((source.toList ++ commands).map Command.aliasName).Nodup
  spans : Database.Spans (source.getD root).aliasName (commands.filterMap (t.edge? db)) (db.envs q)
  begun : Begun db source root q
  demands : Demands db root root.modifiers.predicates q
  selects : Selects ((source.toList.flatMap fun p => p.entity.primaryKey.map fun field => (p, field)) ++
    commands.flatMap (fieldsOf projections)) q

/-- A set is joined to the one it is loaded from, unless it is the root, and then adds its columns and
its predicates. -/
theorem addCommand_steps {projections : List (List String)} {kind : JoinKind} {c : Command}
    (h : addCommand t root.id projections kind c q = .ok ⟨⟩ q') :
    ∃ q₁ q₂, ((c.id = root.id ∧ q₁ = q) ∨ (c.id ≠ root.id ∧ ∃ o p, c.origin = some o ∧
        t.get? o.parent = some p ∧
        o.relation.join p.aliasName c.aliasName kind q = .ok ⟨⟩ q₁)) ∧
      c.entity.selectFields c.aliasName (projections[c.id]?.getD []) q₁ = .ok ⟨⟩ q₂ ∧
      c.modifiers.predicates.forM (addPredicate c) q₂ = .ok ⟨⟩ q' := by
  unfold addCommand at h
  by_cases hid : c.id = root.id
  · rw [if_neg (not_not_intro hid)] at h
    obtain ⟨⟨⟩, q₁, hfields, h⟩ := step_bind_ok h
    exact ⟨q, q₁, .inl ⟨hid, rfl⟩, hfields, h⟩
  · rw [if_pos hid] at h
    obtain ⟨⟨p, r⟩, q₀, hlift, h⟩ := step_bind_ok h
    obtain ⟨hsource, rfl⟩ := step_lift_ok hlift
    obtain ⟨o, ho, hp, rfl⟩ := sourceOf_ok hsource
    obtain ⟨⟨⟩, q₁, hjoin, h⟩ := step_bind_ok h
    obtain ⟨⟨⟩, q₂, hfields, h⟩ := step_bind_ok h
    exact ⟨q₁, q₂, .inr ⟨hid, o, p, ho, hp, hjoin⟩, hfields, h⟩

theorem addCommand_ok {projections : List (List String)} {kind : JoinKind} {c : Command}
    (h : addCommand t root.id projections kind c q = .ok ⟨⟩ q') :
    ∃ q₁ q₂, ((c.id = root.id ∧ q₁ = q) ∨ (c.id ≠ root.id ∧ ∃ o p, c.origin = some o ∧
        t.get? o.parent = some p ∧
        o.relation.join p.aliasName c.aliasName kind q = .ok ⟨⟩ q₁)) ∧
      SameRows q₁ q₂ ∧
      (∀ fields, Selects fields q → Selects (fields ++ fieldsOf projections c) q₂) ∧
      c.modifiers.predicates.forM (addPredicate c) q₂ = .ok ⟨⟩ q' := by
  obtain ⟨q₁, q₂, hjoined, hfields, hpredicates⟩ := addCommand_steps h
  obtain ⟨hsame, hselects⟩ := selectFields_ok hfields
  have hcolumns : q₁.columns = q.columns := by
    rcases hjoined with ⟨-, rfl⟩ | ⟨-, o, p, -, -, hjoin⟩
    · rfl
    · obtain ⟨js, -, rfl⟩ := Relation.join_ok hjoin
      rfl
  exact ⟨q₁, q₂, hjoined, hsame, fun fields hq => hselects fields (selects_congr hq hcolumns),
    hpredicates⟩

/-- Aliases that are distinct were so before more joins came. -/
theorem nodup_of_join {r : Relation} {sourceAlias targetAlias : String} {kind : JoinKind}
    (h : r.join sourceAlias targetAlias kind q = .ok ⟨⟩ q') (hnodup : q'.aliases.Nodup) :
    q.aliases.Nodup := by
  obtain ⟨js, -, rfl⟩ := Relation.join_ok h
  change (q.addJoins _).aliases.Nodup at hnodup
  rw [Select.aliases_addJoins] at hnodup
  exact (List.nodup_append.1 hnodup).1

/-- A set after the root is joined and adds its columns, and no condition. -/
theorem addCommand_later {projections : List (List String)} {c : Command}
    (h : addCommand t root.id projections .left c q = .ok ⟨⟩ q') (hid : c.id ≠ root.id)
    (hplain : c.modifiers.predicates = []) :
    ∃ q₁ o p, c.origin = some o ∧ t.get? o.parent = some p ∧
      o.relation.join p.aliasName c.aliasName .left q = .ok ⟨⟩ q₁ ∧ SameRows q₁ q' ∧
      q₁.condition = q.condition ∧
      ∀ fields, Selects fields q → Selects (fields ++ fieldsOf projections c) q' := by
  obtain ⟨q₁, q₂, ⟨hroot, -⟩ | ⟨-, o, p, ho, hp, hjoin⟩, hsame, hselects, hpredicates⟩ :=
    addCommand_ok h
  · exact (hid hroot).elim
  · rw [hplain] at hpredicates
    cases hpredicates
    refine ⟨q₁, o, p, ho, hp, hjoin, hsame, ?_, hselects⟩
    obtain ⟨js, -, rfl⟩ := Relation.join_ok hjoin
    rfl

/-- The root adds its columns and the demand that its predicates are passed. -/
theorem addCommand_root (db : Database) {projections : List (List String)}
    (h : addCommand t root.id projections .left root q = .ok ⟨⟩ q') :
    q'.source = q.source ∧ q'.joins = q.joins ∧
      (q.condition = .always → Demands db root root.modifiers.predicates q') ∧
      ∀ fields, Selects fields q → Selects (fields ++ fieldsOf projections root) q' := by
  obtain ⟨q₁, q₂, ⟨-, rfl⟩ | ⟨hne, -⟩, hsame, hselects, hpredicates⟩ := addCommand_ok h
  · obtain ⟨hsource, hjoins, hcolumns, hdemands⟩ := addPredicates_ok hpredicates
    refine ⟨hsource.trans hsame.source, hjoins.trans hsame.joins, fun halways => hdemands ?_,
      fun fields hq => selects_congr (hselects fields hq) hcolumns⟩
    intro env u _
    rw [hsame.condition, halways]
    exact ⟨fun _ p hp => (nomatch hp), fun _ => rfl⟩
  · exact (hne rfl).elim

/-- Sets that follow a root, without predicates and each after the one it is loaded from. -/
structure Following (t : CommandTree) (root : Command) (others : List Command) : Prop where
  apart : ∀ c ∈ others, c.id ≠ root.id
  predicates : ∀ c ∈ others, c.modifiers.predicates = []
  mapped : ∀ c ∈ others, ∀ o, c.origin = some o → o.relation.Mapped
  parents : ∀ pre c post, others = pre ++ c :: post → ∀ o p, c.origin = some o →
    t.get? o.parent = some p → p ∈ root :: pre

theorem addOthers_ok {projections : List (List String)} {others : List Command}
    (h : others.forM (addCommand t root.id projections .left) q = .ok ⟨⟩ q')
    (hstage : q.aliases.Nodup → Stage db t source root base [root] q)
    (hothers : Following t root others) :
    (q'.aliases.Nodup → q.aliases.Nodup ∧ Stage db t source root base (root :: others) q') ∧
      q'.condition = q.condition ∧ ∀ fields, Selects fields q →
        Selects (fields ++ others.flatMap (fieldsOf projections)) q' := by
  refine forM_builds (P := fun pre q₁ =>
    (q₁.aliases.Nodup → q.aliases.Nodup ∧ Stage db t source root base (root :: pre) q₁) ∧
      q₁.condition = q.condition ∧ ∀ fields, Selects fields q →
        Selects (fields ++ pre.flatMap (fieldsOf projections)) q₁) ?step ?start h
  case start =>
    refine ⟨fun hnodup => ⟨hnodup, hstage hnodup⟩, rfl, fun fields hq => ?_⟩
    rw [List.flatMap_nil, List.append_nil]
    exact hq
  case step =>
    rintro pre c post hsplit q₁ q₂ ⟨hprevious, hcondition, hselects⟩ hstep
    have hc : c ∈ others := hsplit ▸ List.mem_append_right _ (List.mem_cons_self ..)
    obtain ⟨q₃, o, p, ho, hp, hjoin, hrows, hcondition', hselects'⟩ :=
      addCommand_later hstep (hothers.apart c hc) (hothers.predicates c hc)
    refine ⟨fun hnodup => ?_, ?_, fun fields hq => ?_⟩
    · rw [hrows.aliases] at hnodup
      obtain ⟨hfirst, hstage'⟩ := hprevious (nodup_of_join hjoin hnodup)
      have hparent := hothers.parents pre c post hsplit o p ho hp
      have hnext := hstage'.addSet (hothers.mapped c hc o ho) ho hp hparent hjoin hnodup
      exact ⟨hfirst, hnext.congr hrows.source hrows.joins⟩
    · rw [hrows.condition, hcondition', hcondition]
    · rw [List.flatMap_append, ← List.append_assoc, List.flatMap_singleton]
      exact hselects' _ (hselects fields hq)

theorem addOrders_ok {commands : List Command} (h : commands.forM addOrder q = .ok ⟨⟩ q') :
    SameRows q q' ∧ q'.columns = q.columns := by
  refine forM_keeps (P := fun q₁ => SameRows q q₁ ∧ q₁.columns = q.columns)
    (fun c _ q₁ q₂ hq₁ horder => ?_) ⟨.refl q, rfl⟩ h
  obtain ⟨hsame, hcolumns⟩ := addOrder_ok horder
  exact ⟨hq₁.1.trans hsame, hcolumns.trans hq₁.2⟩

/-- The statement of a chain whose sets come after the ones they are loaded from. -/
theorem writeChain_ok {projections : List (List String)} {others : List Command}
    (h : writeChain t projections .left root (root :: others) {} = .ok ⟨⟩ q)
    (hnodup : q.aliases.Nodup)
    (hstart : ∀ q₀, startChain t root {} = .ok ⟨⟩ q₀ → q₀.aliases.Nodup →
      Started db t source root q₀) (hothers : Following t root others) :
    Written db t projections source root (root :: others) q := by
  unfold writeChain at h
  obtain ⟨⟨⟩, q₀, hbegin, h⟩ := step_bind_ok h
  obtain ⟨⟨⟩, q₂, hcommands, h⟩ := step_bind_ok h
  obtain ⟨⟨⟩, q₃, horders, h⟩ := step_bind_ok h
  obtain ⟨⟨⟩, q₁, hroot, hcommands⟩ := step_bind_ok hcommands
  obtain ⟨hsource₁, hjoins₁, hdemands, hselects₁⟩ := addCommand_root db hroot
  have haliases₁ : q₁.aliases = q₀.aliases := by
    unfold Select.aliases
    rw [hsource₁, hjoins₁]
  obtain ⟨hstage, hcondition, hselects₂⟩ := addOthers_ok hcommands
    (fun hnodup₁ => (hstart q₀ hbegin (haliases₁ ▸ hnodup₁)).stage.congr hsource₁ hjoins₁)
    hothers
  -- orderings and the window touch neither tables nor columns
  have hsame : SameRows q₂ q ∧ q.columns = q₂.columns := by
    obtain ⟨hsame, hcolumns⟩ := addOrders_ok horders
    rw [← step_modify_ok h]
    exact ⟨hsame.trans ⟨rfl, rfl, rfl⟩, hcolumns⟩
  -- distinct aliases at the end were distinct from the start
  obtain ⟨hnodup₁, hlast⟩ := hstage (by rw [← hsame.1.aliases]; exact hnodup)
  have hstarted := hstart q₀ hbegin (haliases₁ ▸ hnodup₁)
  have hfinal := hlast.congr hsame.1.source hsame.1.joins
  refine ⟨hfinal.distinct, hfinal.spans, ?begun, ?demands, selects_congr ?_ hsame.2⟩
  case begun =>
    have hknown := hstarted.stage.known
    refine hstarted.begun.widen hfinal.widens (hknown root ?_) fun p hp => hknown p ?_
    · exact List.mem_append_right _ (List.mem_singleton_self _)
    · rw [hp]
      exact List.mem_cons_self ..
  case demands =>
    intro env u hu
    rw [hsame.1.condition, hcondition]
    exact hdemands hstarted.condition env u hu
  · rw [List.flatMap_cons, ← List.append_assoc]
    exact hselects₂ _ (hselects₁ _ hstarted.selects)

end Plan

end GraphLoad
