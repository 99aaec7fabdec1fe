/-
What a relationship joins: its joins depend on nothing but the aliases of its two ends, and they are
a way from the one to the other, past the pivot if there is one. Two rows are linked if that way
leads from one to the other.
-/
import GraphLoad.Proofs.Relation.Mapping
import GraphLoad.Proofs.Sql.Hops

namespace GraphLoad

open Sql

theorem Entity.fieldExpr_ok {e : Entity} {aliasName field : String} {x : Expr}
    (h : e.fieldExpr aliasName field = .ok x) :
    ∃ name, e.columns.get? field = some name ∧ x = .column aliasName name := by
  unfold Entity.fieldExpr at h
  split at h
  · rename_i name hname; cases h; exact ⟨name, hname, rfl⟩
  · cases h

theorem Entity.equalities_ok {e : Entity} {aliasName : String} :
    ∀ {bindings : List (String × Expr)} {on : List (Expr × Expr)},
      e.equalities aliasName bindings = .ok on →
      List.Forall₂ (fun b q => (∃ name, q.1 = .column aliasName name) ∧ q.2 = b.2) bindings on
  | [], on, h => by cases h; exact .nil
  | (field, x) :: rest, on, h => by
    unfold Entity.equalities at h
    obtain ⟨column, hcolumn, h⟩ := except_bind_ok h
    obtain ⟨others, hothers, h⟩ := except_bind_ok h
    cases h
    obtain ⟨name, -, rfl⟩ := Entity.fieldExpr_ok hcolumn
    exact .cons ⟨⟨name, rfl⟩, rfl⟩ (Entity.equalities_ok hothers)

namespace Relation

variable {r : Relation} {sourceAlias targetAlias : String} {kind : JoinKind}

/-! ## The joins of a relationship -/

/-- The join of one entity of the relationship. -/
def clause (r : Relation) (sourceAlias targetAlias : String)
    (group : String × OrderedMap String (OrderedMap String String)) : Except LoadError Join := do
  let joined ← r.entity group.1
  let bindings ← r.groupBindings sourceAlias targetAlias group.2.entries
  let on ← joined.equalities (r.joinedAlias sourceAlias targetAlias group.1) bindings
  return ⟨.inner, .named joined.table, r.joinedAlias sourceAlias targetAlias group.1, on⟩

/-- The joins of the relationship as inner ones. -/
def clauses (r : Relation) (sourceAlias targetAlias : String) : Except LoadError (List Join) :=
  r.mapping.groups.entries.mapM (r.clause sourceAlias targetAlias)

theorem joinGroup_ok {group : String × OrderedMap String (OrderedMap String String)} {q q' : Select}
    (h : r.joinGroup sourceAlias targetAlias kind group q = .ok ⟨⟩ q') :
    ∃ j, r.clause sourceAlias targetAlias group = .ok j ∧
      q' = { q with joins := q.joins ++ [j.as kind] } := by
  unfold joinGroup at h
  obtain ⟨joined, q₁, hlift, h⟩ := step_bind_ok h
  obtain ⟨hjoined, rfl⟩ := step_lift_ok hlift
  obtain ⟨bindings, q₁, hlift', h⟩ := step_bind_ok h
  obtain ⟨hbindings, rfl⟩ := step_lift_ok hlift'
  unfold Entity.joinAs at h
  split at h
  · obtain ⟨_, _, hthrow, -⟩ := step_bind_ok h
    cases hthrow
  · obtain ⟨on, q₁, hlift'', h⟩ := step_bind_ok h
    obtain ⟨hon, rfl⟩ := step_lift_ok hlift''
    refine ⟨⟨.inner, .named joined.table, r.joinedAlias sourceAlias targetAlias group.1, on⟩, ?_,
      (step_modify_ok h).symm⟩
    simp only [clause, hjoined, hbindings, hon, except_ok_bind]
    rfl

theorem join_ok {q q' : Select} (h : r.join sourceAlias targetAlias kind q = .ok ⟨⟩ q') :
    ∃ js, r.clauses sourceAlias targetAlias = .ok js ∧
      q' = { q with joins := q.joins ++ js.map (·.as kind) } := by
  unfold join at h
  unfold clauses
  generalize r.mapping.groups.entries = groups at h ⊢
  induction groups generalizing q with
  | nil =>
    cases h
    exact ⟨[], rfl, by rw [List.map_nil, List.append_nil]⟩
  | cons group groups ih =>
    change (r.joinGroup sourceAlias targetAlias kind group >>= fun _ =>
      groups.forM (r.joinGroup sourceAlias targetAlias kind)) q = _ at h
    obtain ⟨⟨⟩, q₁, hfirst, h⟩ := step_bind_ok h
    obtain ⟨j, hj, rfl⟩ := joinGroup_ok hfirst
    obtain ⟨js, hjs, rfl⟩ := ih h
    refine ⟨j :: js, ?_, ?_⟩
    · rw [List.mapM_cons, hj, hjs]
      rfl
    · simp only [List.append_assoc, List.map_cons, List.singleton_append]

/-! ## The way from one end to the other -/

theorem fieldBindings_ok {e : Entity} {aliasName : String} :
    ∀ {fields : List (String × String)} {bindings : List (String × Expr)},
      fieldBindings e aliasName fields = .ok bindings →
      (∀ b ∈ bindings, ∃ name, b.2 = .column aliasName name) ∧ bindings.length = fields.length
  | [], bindings, h => by
    cases h
    exact ⟨fun _ hb => (nomatch hb), rfl⟩
  | (f, g) :: rest, bindings, h => by
    unfold fieldBindings at h
    obtain ⟨column, hcolumn, h⟩ := except_bind_ok h
    obtain ⟨others, hothers, h⟩ := except_bind_ok h
    cases h
    obtain ⟨name, -, rfl⟩ := Entity.fieldExpr_ok hcolumn
    obtain ⟨hall, hlength⟩ := fieldBindings_ok hothers
    refine ⟨fun b hb => ?_, by rw [List.length_cons, List.length_cons, hlength]⟩
    rcases List.mem_cons.1 hb with rfl | hb
    · exact ⟨name, rfl⟩
    · exact hall b hb

/-- What is bound are columns of the entities met, of each that has fields at least one. -/
theorem groupBindings_ok :
    ∀ {met : List (String × OrderedMap String String)} {bindings : List (String × Expr)},
      r.groupBindings sourceAlias targetAlias met = .ok bindings →
      (∀ b ∈ bindings, ∃ m ∈ met, ∃ name,
        b.2 = .column (r.metAlias sourceAlias targetAlias m.1) name) ∧
      ∀ m ∈ met, m.2.entries ≠ [] → ∃ b ∈ bindings, ∃ name,
        b.2 = .column (r.metAlias sourceAlias targetAlias m.1) name
  | [], bindings, h => by
    cases h
    exact ⟨fun _ hb => (nomatch hb), fun _ hm => nomatch hm⟩
  | (name, fields) :: rest, bindings, h => by
    unfold groupBindings at h
    obtain ⟨entity, -, h⟩ := except_bind_ok h
    obtain ⟨first, hfirst, h⟩ := except_bind_ok h
    obtain ⟨others, hothers, h⟩ := except_bind_ok h
    cases h
    obtain ⟨hcolumns, hlength⟩ := fieldBindings_ok hfirst
    obtain ⟨hall, hsome⟩ := groupBindings_ok hothers
    constructor
    · intro b hb
      rcases List.mem_append.1 hb with hb | hb
      · exact ⟨_, List.mem_cons_self .., hcolumns b hb⟩
      · obtain ⟨m, hm, hbm⟩ := hall b hb
        exact ⟨m, List.mem_cons_of_mem _ hm, hbm⟩
    · intro m hm hne
      rcases List.mem_cons.1 hm with rfl | hm
      · obtain ⟨b, hb⟩ := List.exists_mem_of_ne_nil first (by
          rw [← List.length_pos_iff, hlength, List.length_pos_iff]
          exact hne)
        exact ⟨b, List.mem_append_left _ hb, hcolumns b hb⟩
      · obtain ⟨b, hb, hbm⟩ := hsome m hm hne
        exact ⟨b, List.mem_append_right _ hb, hbm⟩

/-- An entity is joined on columns of its own that equal columns of the entities met, of each that has
fields at least one. -/
theorem clause_ok {group : String × OrderedMap String (OrderedMap String String)} {j : Join}
    (h : r.clause sourceAlias targetAlias group = .ok j) :
    j.aliasName = r.joinedAlias sourceAlias targetAlias group.1 ∧ j.kind = .inner ∧
      (∀ e ∈ j.on, (∃ name, e.1 = .column j.aliasName name) ∧ ∃ m ∈ group.2.entries, ∃ name,
        e.2 = .column (r.metAlias sourceAlias targetAlias m.1) name) ∧
      ∀ m ∈ group.2.entries, m.2.entries ≠ [] → ∃ e ∈ j.on, ∃ name,
        e.2 = .column (r.metAlias sourceAlias targetAlias m.1) name := by
  unfold clause at h
  obtain ⟨joined, -, h⟩ := except_bind_ok h
  obtain ⟨bindings, hbindings, h⟩ := except_bind_ok h
  obtain ⟨on, hon, h⟩ := except_bind_ok h
  cases h
  have hpairs := Entity.equalities_ok hon
  obtain ⟨hall, htouch⟩ := groupBindings_ok hbindings
  refine ⟨rfl, rfl, fun e he => ?_, fun m hm hne => ?_⟩
  · obtain ⟨b, hb, hcolumn, heq⟩ := forall₂_mem_right hpairs e he
    obtain ⟨m, hm, name, hbm⟩ := hall b hb
    exact ⟨hcolumn, m, hm, name, heq.trans hbm⟩
  · obtain ⟨b, hb, name, hbm⟩ := htouch m hm hne
    obtain ⟨e, he, -, heq⟩ := forall₂_mem_left hpairs b hb
    exact ⟨e, he, name, heq.trans hbm⟩

/-- A joined entity is a hop from `a` if whatever it meets stands under `a` or under its own alias,
and something stands under `a`. -/
theorem isHop_of_clause {group : String × OrderedMap String (OrderedMap String String)} {j : Join}
    {a : String} (h : r.clause sourceAlias targetAlias group = .ok j)
    (hmet : ∀ m ∈ group.2.entries, r.metAlias sourceAlias targetAlias m.1 = a ∨
      r.metAlias sourceAlias targetAlias m.1 = r.joinedAlias sourceAlias targetAlias group.1)
    (hsome : ∃ m ∈ group.2.entries, m.2.entries ≠ [] ∧
      r.metAlias sourceAlias targetAlias m.1 = a) :
    IsHop a j ∧ j.aliasName = r.joinedAlias sourceAlias targetAlias group.1 ∧ j.kind = .inner := by
  obtain ⟨halias, hkind, hon, htouch⟩ := clause_ok h
  refine ⟨⟨fun e he => (hon e he).1, fun e he => ?_, ?_⟩, halias, hkind⟩
  · obtain ⟨-, m, hm, name, heq⟩ := hon e he
    exact ⟨_, name, heq, by rw [halias]; exact hmet m hm⟩
  · obtain ⟨m, hm, hne, ha⟩ := hsome
    obtain ⟨e, he, name, heq⟩ := htouch m hm hne
    exact ⟨e, he, name, by rw [heq, ha]⟩

/-- Either end of a relationship is met under one of the two aliases. -/
theorem metAlias_end {name : String} (h : name = r.source.name ∨ name = r.target.name) :
    r.metAlias sourceAlias targetAlias name = sourceAlias ∨
      r.metAlias sourceAlias targetAlias name = targetAlias := by
  unfold metAlias
  split
  · exact .inl rfl
  · rename_i hsource
    exact .inr (if_pos (h.resolve_left hsource))

/-- Binding pairs of two entities leaves one group of fields between them, the pairs inserted one after
the other. -/
theorem bindAll_insertMany (source target : String) :
    ∀ {pairs : List (String × String)} (m : JoinMapping), pairs ≠ [] →
      bindAll m (pairs.map fun p => ((source, p.1), (target, p.2))) =
        ⟨m.groups.insert target (((m.groups.get? target).getD .empty).insert source
          (((((m.groups.get? target).getD .empty).get? source).getD .empty).insertMany pairs))⟩
  | [], m, h => (h rfl).elim
  | [p], m, _ => rfl
  | p :: q :: rest, m, _ => by
    refine (bindAll_insertMany source target (m.bind target source p.1 p.2)
      (List.cons_ne_nil q rest)).trans ?_
    unfold JoinMapping.bind
    simp only [OrderedMap.get?_insert_self, Option.getD_some, OrderedMap.insert_insert]
    rfl

theorem bindAll_pairs (source target : String) {pairs : List (String × String)} (m : JoinMapping)
    (h : pairs ≠ []) :
    ∃ fields : OrderedMap String String, fields.entries ≠ [] ∧
      bindAll m (pairs.map fun p => ((source, p.1), (target, p.2))) =
        ⟨m.groups.insert target (((m.groups.get? target).getD .empty).insert source fields)⟩ :=
  ⟨_, OrderedMap.entries_insertMany_ne_nil h, bindAll_insertMany source target m h⟩

/-- The groups of a join mapping: the target met by the source, or, where there is a pivot, the pivot
met by the source and the target met by the pivot, in one group if both are one entity. -/
theorem groups_ok {catalog : Catalog} {source target : Entity} {name : String} {pairs : FieldPairs}
    {pivot : Option Entity} {mapping : JoinMapping}
    (h : joinMapping catalog source target name pairs = .ok (pivot, mapping)) :
    (∃ fields : OrderedMap String String, pivot = none ∧ fields.entries ≠ [] ∧
        mapping.groups.entries = [(target.name, OrderedMap.empty.insert source.name fields)]) ∨
      (∃ (middle : Entity) (fields others : OrderedMap String String), pivot = some middle ∧
        middle.name = target.name ∧ fields.entries ≠ [] ∧ others.entries ≠ [] ∧
        mapping.groups.entries = [(target.name,
          (OrderedMap.empty.insert source.name fields).insert target.name others)]) ∨
      ∃ (middle : Entity) (fields others : OrderedMap String String), pivot = some middle ∧
        middle.name ≠ target.name ∧ fields.entries ≠ [] ∧ others.entries ≠ [] ∧
        mapping.groups.entries = [(middle.name, OrderedMap.empty.insert source.name fields),
          (target.name, OrderedMap.empty.insert middle.name others)] := by
  cases pairs with
  | direct pairs =>
    unfold joinMapping at h
    obtain ⟨m, hm, h⟩ := except_bind_ok h
    cases h
    obtain ⟨hne, rfl⟩ := bindGroup_ok hm
    obtain ⟨fields, hfields, hbind⟩ := bindAll_pairs source.name target.name {} hne
    rw [hbind]
    exact .inl ⟨fields, rfl, hfields, rfl⟩
  | throughPivot pivotName toPivot toTarget =>
    unfold joinMapping at h
    obtain ⟨p, -, h⟩ := except_bind_ok h
    obtain ⟨m, hm, h⟩ := except_bind_ok h
    obtain ⟨m', hm', h⟩ := except_bind_ok h
    cases h
    obtain ⟨hne, rfl⟩ := bindGroup_ok hm
    obtain ⟨hne', rfl⟩ := bindGroup_ok hm'
    obtain ⟨fields, hfields, hbind⟩ := bindAll_pairs source.name p.name {} hne
    rw [hbind]
    obtain ⟨others, hothers, hbind'⟩ := bindAll_pairs p.name target.name
      ⟨(JoinMapping.groups {}).insert p.name
        ((((JoinMapping.groups {}).get? p.name).getD .empty).insert source.name fields)⟩ hne'
    rw [hbind']
    right
    by_cases hp : p.name = target.name
    · left
      refine ⟨p, fields, others, rfl, hp, hfields, hothers, ?_⟩
      rw [hp, OrderedMap.get?_insert_self, OrderedMap.insert_insert]
      rfl
    · right
      refine ⟨p, fields, others, rfl, hp, hfields, hothers, ?_⟩
      rw [OrderedMap.get?_insert_of_ne _ (Ne.symm hp)]
      exact OrderedMap.put_of_not_mem fun hmem => hp (List.mem_singleton.1 hmem).symm

/-- A target that is joined at once is met by the source, and perhaps by itself. -/
theorem isWay_direct {group : OrderedMap String (OrderedMap String String)} {js : List Join}
    (hall : List.Forall₂ (fun g j => r.clause sourceAlias targetAlias g = .ok j)
      [(r.target.name, group)] js)
    (hmet : ∀ m ∈ group.entries, m.1 = r.source.name ∨ m.1 = r.target.name)
    {fields : OrderedMap String String} (hfields : group.get? r.source.name = some fields)
    (hne : fields.entries ≠ []) :
    IsWay sourceAlias targetAlias js ∧ js ≠ [] ∧ ∀ j ∈ js, j.kind = .inner := by
  obtain ⟨j, _, hj, hnil, rfl⟩ := List.forall₂_cons_left_iff.1 hall
  cases hnil
  have htarget : r.joinedAlias sourceAlias targetAlias r.target.name = targetAlias := if_pos rfl
  have hsource : r.metAlias sourceAlias targetAlias r.source.name = sourceAlias := if_pos rfl
  obtain ⟨hhop, hend, hkind⟩ := isHop_of_clause (a := sourceAlias) hj
    (by rw [htarget]; exact fun m hm => metAlias_end (hmet m hm))
    ⟨_, OrderedMap.get?_eq_some_iff.1 hfields, hne, hsource⟩
  rw [htarget] at hend
  refine ⟨⟨hhop, hend⟩, List.cons_ne_nil _ _, fun k hk => ?_⟩
  rw [List.mem_singleton.1 hk]
  exact hkind

/-- A pivot is met by the source, and the target by the pivot. -/
theorem isWay_pivot {middle : String} {fields others : OrderedMap String String} {js : List Join}
    (hall : List.Forall₂ (fun g j => r.clause sourceAlias targetAlias g = .ok j)
      [(middle, OrderedMap.empty.insert r.source.name fields),
        (r.target.name, OrderedMap.empty.insert middle others)] js)
    (hmiddle : middle ≠ r.target.name) (hfields : fields.entries ≠ []) (hothers : others.entries ≠ [])
    (hnodup : (sourceAlias :: js.map Join.aliasName).Nodup) :
    IsWay sourceAlias targetAlias js ∧ js ≠ [] ∧ ∀ j ∈ js, j.kind = .inner := by
  obtain ⟨j, _, hj, hrest, rfl⟩ := List.forall₂_cons_left_iff.1 hall
  obtain ⟨k, _, hk, hnil, rfl⟩ := List.forall₂_cons_left_iff.1 hrest
  cases hnil
  have htarget : r.joinedAlias sourceAlias targetAlias r.target.name = targetAlias := if_pos rfl
  have hsource : r.metAlias sourceAlias targetAlias r.source.name = sourceAlias := if_pos rfl
  obtain ⟨hhop, halias, hkind⟩ := isHop_of_clause (a := sourceAlias) hj (fun m hm => by
    rw [List.mem_singleton.1 hm]
    exact .inl hsource) ⟨_, List.mem_singleton_self _, hfields, hsource⟩
  -- a pivot that is the source itself would be joined under the alias of the source
  have hapart : middle ≠ r.source.name := by
    rintro rfl
    rw [joinedAlias, if_neg hmiddle, if_pos rfl] at halias
    rw [List.map_cons, halias] at hnodup
    exact (List.nodup_cons.1 hnodup).1 (List.mem_cons_self ..)
  have hmet : r.metAlias sourceAlias targetAlias middle = j.aliasName := by
    simp only [halias, joinedAlias, metAlias, if_neg hmiddle, if_neg hapart]
  obtain ⟨hhop', halias', hkind'⟩ := isHop_of_clause (a := j.aliasName) hk (fun m hm => by
    rw [List.mem_singleton.1 hm]
    exact .inl hmet) ⟨_, List.mem_singleton_self _, hothers, hmet⟩
  rw [htarget] at halias'
  refine ⟨⟨hhop, hhop', halias'⟩, List.cons_ne_nil _ _, fun i hi => ?_⟩
  rcases List.mem_cons.1 hi with rfl | hi
  · exact hkind
  · rw [List.mem_singleton.1 hi]
    exact hkind'

/-- Through the aliases of its ends, past the pivot if there is one, a relationship leads from its
source to its target. -/
theorem isWay_clauses {catalog : Catalog} {pairs : FieldPairs} {js : List Join}
    (hmapping : joinMapping catalog r.source r.target r.name pairs = .ok (r.pivot, r.mapping))
    (h : r.clauses sourceAlias targetAlias = .ok js)
    (hnodup : (sourceAlias :: js.map Join.aliasName).Nodup) :
    IsWay sourceAlias targetAlias js ∧ js ≠ [] ∧ ∀ j ∈ js, j.kind = .inner := by
  have hall := except_mapM_ok _ h
  rcases groups_ok hmapping with ⟨fields, -, hfields, hentries⟩ |
    ⟨-, fields, others, -, -, hfields, hothers, hentries⟩ |
    ⟨middle, fields, others, -, hmiddle, hfields, hothers, hentries⟩
  · rw [hentries] at hall
    refine isWay_direct hall (fun m hm => ?_) (OrderedMap.get?_insert_self ..) hfields
    rw [List.mem_singleton.1 hm]
    exact .inl rfl
  · rw [hentries] at hall
    have hmet : ∀ m ∈ ((OrderedMap.empty.insert r.source.name fields).insert r.target.name
        others).entries, m.1 = r.source.name ∨ m.1 = r.target.name := by
      intro m hm
      rcases OrderedMap.mem_entries_insert hm with rfl | hm
      · exact .inr rfl
      · rw [List.mem_singleton.1 hm]
        exact .inl rfl
    by_cases hself : r.source.name = r.target.name
    · refine isWay_direct hall hmet ?_ hothers
      rw [hself]
      exact OrderedMap.get?_insert_self ..
    · refine isWay_direct hall hmet ?_ hfields
      rw [OrderedMap.get?_insert_of_ne _ hself]
      exact OrderedMap.get?_insert_self ..
  · rw [hentries] at hall
    exact isWay_pivot hall hmiddle hfields hothers hnodup

/-- The last table that a relationship joins is that of its target. -/
theorem last_clauses {catalog : Catalog} {pairs : FieldPairs} {js : List Join}
    (hmapping : joinMapping catalog r.source r.target r.name pairs = .ok (r.pivot, r.mapping))
    (h : r.clauses sourceAlias targetAlias = .ok js) :
    js.getLast?.map Join.table = some (.named r.target.table) := by
  have hall := except_mapM_ok _ h
  have htable : ∀ {fields : OrderedMap String (OrderedMap String String)} {j : Join},
      r.clause sourceAlias targetAlias (r.target.name, fields) = .ok j →
      j.table = .named r.target.table := by
    intro fields j hj
    unfold clause entity at hj
    rw [if_pos rfl] at hj
    obtain ⟨joined, ⟨⟩, hj⟩ := except_bind_ok hj
    obtain ⟨bindings, -, hj⟩ := except_bind_ok hj
    obtain ⟨on, -, hj⟩ := except_bind_ok hj
    cases hj
    rfl
  rcases groups_ok hmapping with ⟨fields, -, -, hentries⟩ |
    ⟨-, fields, others, -, -, -, -, hentries⟩ | ⟨middle, fields, others, -, -, -, -, hentries⟩
  all_goals
    rw [hentries] at hall
    obtain ⟨j, js', hj, hrest, rfl⟩ := List.forall₂_cons_left_iff.1 hall
  case inr.inr =>
    obtain ⟨k, _, hk, hnil, rfl⟩ := List.forall₂_cons_left_iff.1 hrest
    cases hnil
    exact congrArg some (htable hk)
  all_goals
    cases hrest
    exact congrArg some (htable hj)

end Relation

/-- Whether a relationship links two rows that stand under its aliases. -/
def Sql.Database.Linked (db : Database) (r : Relation) (sourceAlias targetAlias : String)
    (x y : Tuple) : Prop :=
  ∃ js, r.clauses sourceAlias targetAlias = .ok js ∧ db.Leads sourceAlias js x y

/-- What a relationship leads to are rows of the table of its target. -/
theorem Relation.mem_tuples_of_linked {db : Database} {r : Relation} {catalog : Catalog}
    {pairs : FieldPairs} {sourceAlias targetAlias : String} {x y : Tuple}
    (hmapping : joinMapping catalog r.source r.target r.name pairs = .ok (r.pivot, r.mapping))
    (h : db.Linked r sourceAlias targetAlias x y) : y ∈ db.tuples (.named r.target.table) := by
  obtain ⟨js, hjs, hlead⟩ := h
  have hlast := last_clauses hmapping hjs
  generalize sourceAlias = a at hlead
  clear hjs
  induction js generalizing a x with
  | nil => cases hlast
  | cons j js ih =>
    obtain ⟨w, hw, -, hlead⟩ := hlead
    cases js with
    | nil =>
      rw [show w = y from hlead, show j.table = _ from Option.some.inj hlast] at hw
      exact hw
    | cons k ks => exact ih hlast j.aliasName hlead

/-- Rows are linked if the joins lead from one to the other, whatever their kind. -/
theorem Relation.linked_eq {db : Database} {r : Relation} {sourceAlias targetAlias : String}
    {js : List Join} (h : r.clauses sourceAlias targetAlias = .ok js) (kind : JoinKind) :
    db.Linked r sourceAlias targetAlias = db.Leads sourceAlias (js.map (·.as kind)) := by
  funext x y
  rw [Database.leads_as, Database.Linked, h]
  refine propext ⟨?_, fun hlead => ⟨js, rfl, hlead⟩⟩
  rintro ⟨_, ⟨⟩, hlead⟩
  exact hlead

end GraphLoad
