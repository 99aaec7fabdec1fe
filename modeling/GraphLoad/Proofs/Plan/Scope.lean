/-
The aliases of the statements of a plan. Main statement: the statement of a chain speaks of no table
that it does not introduce, and joins each table to one that stands before it; and it knows every table
under an alias of its own, as far as the names of its entities have no two underscores in a row and no
pivot is the source of its relationship. Such a pivot would be joined under the alias of the source
once more.
-/
import GraphLoad.Proofs.Command.Names
import GraphLoad.Proofs.Run.Filling
import GraphLoad.Proofs.Run.Splitting
import GraphLoad.Proofs.Schema.Conditions
import GraphLoad.Proofs.Sql.Scope

namespace GraphLoad

open Sql Text

/-! ## Relationships -/

namespace Relation

variable {r : Relation} {sourceAlias targetAlias : String} {kind : JoinKind} {q q' : Select}

/-- The aliases of what a relationship joins besides its target: that of its pivot, unless the pivot is
the target. -/
def between (r : Relation) (sourceAlias targetAlias : String) : List String :=
  (r.pivot.filter fun p => p.name ≠ r.target.name).toList.map fun p =>
    r.joinedAlias sourceAlias targetAlias p.name

/-- A relationship whose pivot, if it has one, is not its source, unless it is its target too. -/
def PivotApart (r : Relation) : Prop :=
  ∀ p ∈ r.pivot, p.name = r.source.name → p.name = r.target.name

instance (r : Relation) : Decidable r.PivotApart :=
  inferInstanceAs (Decidable (∀ p ∈ r.pivot, p.name = r.source.name → p.name = r.target.name))

/-- A pivot stands under an alias made for it, or else under that of the source. -/
theorem mem_between {a : String} (ha : a ∈ r.between sourceAlias targetAlias) :
    (a = sourceAlias ∧ ¬ r.PivotApart) ∨ ∃ entity, a = pivotAlias sourceAlias targetAlias entity := by
  obtain ⟨p, hp, rfl⟩ := List.mem_map.1 ha
  obtain ⟨hp, htarget⟩ := Option.filter_eq_some_iff.1 (Option.mem_toList.1 hp)
  have htarget := of_decide_eq_true htarget
  rw [joinedAlias, if_neg htarget]
  split
  · rename_i hsource
    exact .inl ⟨rfl, fun hapart => htarget (hapart p hp hsource)⟩
  · exact .inr ⟨p.name, rfl⟩

theorem nodup_between (r : Relation) (sourceAlias targetAlias : String) :
    (r.between sourceAlias targetAlias).Nodup := by
  unfold between
  cases r.pivot.filter fun p => p.name ≠ r.target.name <;> simp

/-- A group is joined to what stands in the statement already. -/
theorem scoped_clause {group : String × OrderedMap String (OrderedMap String String)} {j : Join}
    (h : r.clause sourceAlias targetAlias group = .ok j) (hq : q.Scoped)
    (hmet : ∀ m ∈ group.2.entries, r.metAlias sourceAlias targetAlias m.1 ∈
      r.joinedAlias sourceAlias targetAlias group.1 :: q.aliases) (kind : JoinKind) :
    (q.addJoin (j.as kind)).Scoped ∧ (q.addJoin (j.as kind)).aliases =
      q.aliases ++ [r.joinedAlias sourceAlias targetAlias group.1] := by
  obtain ⟨halias, -, hon, -⟩ := clause_ok h
  refine ⟨hq.addJoin fun e he => ?_, by rw [Select.aliases_addJoin, ← halias]; rfl⟩
  obtain ⟨⟨own, hown⟩, m, hm, name, heq⟩ := hon e he
  constructor
  · rw [hown]
    exact List.mem_singleton_self _
  · rw [heq]
    show _ ∈ j.aliasName :: q.aliases
    rw [halias]
    exact hmet m hm

/-- A target that is joined at once meets nothing but the two ends. -/
theorem scoped_direct {group : OrderedMap String (OrderedMap String String)} {js : List Join}
    (hall : List.Forall₂ (fun g j => r.clause sourceAlias targetAlias g = .ok j)
      [(r.target.name, group)] js) (hq : q.Scoped) (hsource : sourceAlias ∈ q.aliases)
    (hmet : ∀ m ∈ group.entries, m.1 = r.source.name ∨ m.1 = r.target.name) (kind : JoinKind) :
    (q.addJoins (js.map (·.as kind))).Scoped ∧
      (q.addJoins (js.map (·.as kind))).aliases = q.aliases ++ [targetAlias] := by
  obtain ⟨j, _, hj, hnil, rfl⟩ := List.forall₂_cons_left_iff.1 hall
  cases hnil
  have htarget : r.joinedAlias sourceAlias targetAlias r.target.name = targetAlias := if_pos rfl
  rw [← htarget]
  refine scoped_clause hj hq (fun m hm => ?_) kind
  have hends : r.metAlias sourceAlias targetAlias m.1 = sourceAlias ∨
      r.metAlias sourceAlias targetAlias m.1 = targetAlias := metAlias_end (hmet m hm)
  rcases hends with heq | heq
  · rw [heq]
    exact List.mem_cons_of_mem _ hsource
  · rw [heq, htarget]
    exact List.mem_cons_self ..

/-- A pivot meets the source, and the target meets the pivot where it was joined, be it under the alias
of the source. -/
theorem scoped_pivot {middle : String} {fields others : OrderedMap String String} {js : List Join}
    (hall : List.Forall₂ (fun g j => r.clause sourceAlias targetAlias g = .ok j)
      [(middle, OrderedMap.empty.insert r.source.name fields),
        (r.target.name, OrderedMap.empty.insert middle others)] js)
    (hmiddle : middle ≠ r.target.name) (hq : q.Scoped) (hsource : sourceAlias ∈ q.aliases)
    (kind : JoinKind) :
    (q.addJoins (js.map (·.as kind))).Scoped ∧ (q.addJoins (js.map (·.as kind))).aliases =
      q.aliases ++ [r.joinedAlias sourceAlias targetAlias middle] ++ [targetAlias] := by
  obtain ⟨j, _, hj, hrest, rfl⟩ := List.forall₂_cons_left_iff.1 hall
  obtain ⟨k, _, hk, hnil, rfl⟩ := List.forall₂_cons_left_iff.1 hrest
  cases hnil
  have htarget : r.joinedAlias sourceAlias targetAlias r.target.name = targetAlias := if_pos rfl
  have hmet : r.metAlias sourceAlias targetAlias middle =
      r.joinedAlias sourceAlias targetAlias middle := by
    rw [metAlias, joinedAlias, if_neg hmiddle, if_neg hmiddle]
  obtain ⟨hscoped, haliases⟩ := scoped_clause hj hq (fun m hm => by
    rw [List.mem_singleton.1 hm, metAlias, if_pos rfl]
    exact List.mem_cons_of_mem _ hsource) kind
  obtain ⟨hscoped', haliases'⟩ := scoped_clause hk hscoped (fun m hm => by
    rw [List.mem_singleton.1 hm, haliases]
    show r.metAlias sourceAlias targetAlias middle ∈ _
    rw [hmet]
    exact List.mem_cons_of_mem _ (List.mem_append_right _ (List.mem_singleton_self _))) kind
  have hsplit : q.addJoins ([j, k].map (·.as kind)) =
      (q.addJoin (j.as kind)).addJoin (k.as kind) := by
    simp [Select.addJoins, Select.addJoin]
  rw [hsplit]
  exact ⟨hscoped', by rw [haliases', haliases, htarget]⟩

/-- A relationship is joined to a source that stands in the statement: its pivot, if there is one, and
its target. -/
theorem join_scoped (hr : r.Mapped) (h : r.join sourceAlias targetAlias kind q = .ok ⟨⟩ q')
    (hq : q.Scoped) (hsource : sourceAlias ∈ q.aliases) :
    q'.Scoped ∧ q'.aliases = q.aliases ++ r.between sourceAlias targetAlias ++ [targetAlias] := by
  obtain ⟨catalog, pairs, hmapping⟩ := hr
  obtain ⟨js, hjs, rfl⟩ := join_ok h
  have hall := except_mapM_ok _ hjs
  rcases groups_ok hmapping with ⟨fields, hpivot, -, hentries⟩ |
    ⟨p, fields, others, hpivot, hp, -, -, hentries⟩ |
    ⟨p, fields, others, hpivot, hp, -, -, hentries⟩
  · rw [hentries] at hall
    have hbetween : r.between sourceAlias targetAlias = [] := by simp [between, hpivot]
    rw [hbetween, List.append_nil]
    refine scoped_direct hall hq hsource (fun m hm => .inl ?_) kind
    rw [List.mem_singleton.1 hm]
  · rw [hentries] at hall
    have hbetween : r.between sourceAlias targetAlias = [] := by simp [between, hpivot, hp]
    rw [hbetween, List.append_nil]
    refine scoped_direct hall hq hsource (fun m hm => ?_) kind
    rcases OrderedMap.mem_entries_insert hm with rfl | hm
    · exact .inr rfl
    · exact .inl (by rw [List.mem_singleton.1 hm])
  · rw [hentries] at hall
    have hbetween : r.between sourceAlias targetAlias =
        [r.joinedAlias sourceAlias targetAlias p.name] := by simp [between, hpivot, hp]
    rw [hbetween]
    exact scoped_pivot hall hp hq hsource kind

end Relation

/-! ## Aliases side by side -/

/-- Whether an alias is one of some names of sets, or that of a pivot between two of them. -/
def MadeOf (names : List String) (a : String) : Prop :=
  a ∈ names ∨ ∃ b ∈ names, ∃ c ∈ names, ∃ entity, a = Relation.pivotAlias b c entity

theorem MadeOf.mono {names names' : List String} {a : String} (h : MadeOf names a)
    (hle : ∀ b ∈ names, b ∈ names') : MadeOf names' a := by
  rcases h with h | ⟨b, hb, c, hc, entity, rfl⟩
  · exact .inl (hle a h)
  · exact .inr ⟨b, hle b hb, c, hle c hc, entity, rfl⟩

/-- A relationship to a new set brings new aliases. -/
theorem nodup_joined {r : Relation} {names aliases : List String} {sourceAlias targetAlias : String}
    (hnames : ∀ a ∈ targetAlias :: names, SingleUnderscores (a.toList ++ ['_']))
    (hlisted : ∀ a ∈ aliases, MadeOf names a) (hapart : r.PivotApart) (hsource : sourceAlias ∈ names)
    (htarget : targetAlias ∉ names) (hnodup : aliases.Nodup) :
    (aliases ++ r.between sourceAlias targetAlias ++ [targetAlias]).Nodup := by
  have hname : ∀ a ∈ names, SingleUnderscores (a.toList ++ ['_']) :=
    fun a ha => hnames a (List.mem_cons_of_mem _ ha)
  have hlast := hnames targetAlias (List.mem_cons_self ..)
  have hmade : ∀ a ∈ r.between sourceAlias targetAlias,
      ∃ entity, a = Relation.pivotAlias sourceAlias targetAlias entity :=
    fun a ha => (Relation.mem_between ha).resolve_left fun h => h.2 hapart
  refine List.nodup_append.2 ⟨List.nodup_append.2 ⟨hnodup, r.nodup_between _ _, ?pivot⟩,
    List.nodup_singleton _, ?set⟩
  case pivot =>
    rintro a ha _ hb rfl
    obtain ⟨entity, rfl⟩ := hmade _ hb
    rcases hlisted _ ha with ha | ⟨b, hb, c, hc, entity', heq⟩
    · exact Relation.pivotAlias_ne (hname _ ha) rfl
    · obtain ⟨-, rfl⟩ :=
        Relation.pivotAlias_inj (hname _ hsource) hlast (hname b hb) (hname c hc) heq
      exact htarget hc
  case set =>
    rintro a ha _ hb rfl
    rw [List.mem_singleton] at hb
    subst hb
    rcases List.mem_append.1 ha with ha | ha
    · rcases hlisted _ ha with ha | ⟨b, -, c, -, entity, heq⟩
      · exact htarget ha
      · exact Relation.pivotAlias_ne hlast heq
    · obtain ⟨entity, heq⟩ := hmade _ ha
      exact Relation.pivotAlias_ne hlast heq

/-! ## Building the statement of a chain -/

section
variable {q q' : Select} {aliasName : String}

theorem Entity.fieldExpr_under {e : Entity} {field : String} {x : Expr} {aliases : List String}
    (h : e.fieldExpr aliasName field = .ok x) (hknown : aliasName ∈ aliases) : x.Under aliases := by
  obtain ⟨name, -, rfl⟩ := Entity.fieldExpr_ok h
  exact hknown

/-- Steps that bring no new tables. -/
theorem forM_scoped {α : Type} {f : α → Building Unit} {xs : List α}
    (hf : ∀ x ∈ xs, ∀ q₁ q₂, q₁.Scoped → q₁.aliases = q.aliases → f x q₁ = .ok ⟨⟩ q₂ →
      q₂.Scoped ∧ q₂.aliases = q₁.aliases) (hq : q.Scoped) (h : xs.forM f q = .ok ⟨⟩ q') :
    q'.Scoped ∧ q'.aliases = q.aliases := by
  refine forM_keeps (P := fun q₁ => q₁.Scoped ∧ q₁.aliases = q.aliases) ?_ ⟨hq, rfl⟩ h
  rintro x hx q₁ q₂ ⟨hq₁, heq⟩ hstep
  obtain ⟨hq₂, heq'⟩ := hf x hx q₁ q₂ hq₁ heq hstep
  exact ⟨hq₂, heq'.trans heq⟩

theorem Entity.selectFields_scoped {e : Entity} {fields : List String}
    (h : e.selectFields aliasName fields q = .ok ⟨⟩ q') (hq : q.Scoped)
    (hknown : aliasName ∈ q.aliases) : q'.Scoped ∧ q'.aliases = q.aliases := by
  refine forM_scoped (fun field _ q₁ q₂ hq₁ heq hfield => ?_) hq h
  unfold Entity.selectField at hfield
  obtain ⟨x, q₃, hlift, hfield⟩ := step_bind_ok hfield
  obtain ⟨hx, rfl⟩ := step_lift_ok hlift
  rw [← step_modify_ok hfield, Select.aliases_addColumn]
  exact ⟨hq₁.addColumn (Entity.fieldExpr_under hx (heq ▸ hknown)), rfl⟩

end

namespace Plan

variable {t : CommandTree} {root c : Command} {source : Option Command} {done : List Command}
  {projections : List (List String)} {kind : JoinKind} {q q' : Select}

theorem addPredicates_scoped {ps : List Predicate} (h : ps.forM (addPredicate c) q = .ok ⟨⟩ q')
    (hq : q.Scoped) (hknown : c.aliasName ∈ q.aliases) : q'.Scoped ∧ q'.aliases = q.aliases := by
  refine forM_scoped (fun p _ q₁ q₂ hq₁ heq hp => ?_) hq h
  unfold addPredicate at hp
  obtain ⟨x, q₃, hlift, hp⟩ := step_bind_ok hp
  obtain ⟨hx, rfl⟩ := step_lift_ok hlift
  rw [← step_modify_ok hp, Select.aliases_restrict]
  refine ⟨hq₁.restrict fun y hy => ?_, rfl⟩
  rw [Condition.exprs_predicate, List.mem_singleton] at hy
  rw [hy]
  exact Entity.fieldExpr_under hx (heq ▸ hknown)

theorem addOrder_scoped (h : addOrder c q = .ok ⟨⟩ q') (hq : q.Scoped)
    (hknown : c.aliasName ∈ q.aliases) : q'.Scoped ∧ q'.aliases = q.aliases := by
  refine forM_scoped (fun term _ q₁ q₂ hq₁ heq hterm => ?_) hq h
  unfold Entity.orderByField at hterm
  obtain ⟨x, q₃, hlift, hterm⟩ := step_bind_ok hterm
  obtain ⟨hx, rfl⟩ := step_lift_ok hlift
  rw [← step_modify_ok hterm, Select.aliases_orderBy]
  exact ⟨hq₁.orderBy (Entity.fieldExpr_under hx (heq ▸ hknown)) _, rfl⟩

/-- A statement under construction that knows the sets written into it: that of the source of its chain,
if there is one, and those of `done`. Its aliases are distinct if they can be told apart. -/
structure Aliased (source : Option Command) (done : List Command) (q : Select) : Prop where
  scope : q.Scoped
  known : ∀ c ∈ source.toList ++ done, c.aliasName ∈ q.aliases
  listed : ∀ a ∈ q.aliases, MadeOf ((source.toList ++ done).map Command.aliasName) a
  distinct : (∀ c ∈ source.toList ++ done, SingleUnderscores (c.aliasName.toList ++ ['_'])) →
    (∀ c ∈ done, ∀ o, c.origin = some o → o.relation.PivotApart) → q.aliases.Nodup

theorem Aliased.congr (h : Aliased source done q) (hq' : q'.Scoped ∧ q'.aliases = q.aliases) :
    Aliased source done q' := by
  obtain ⟨hscoped, haliases⟩ := hq'
  refine ⟨hscoped, ?_, ?_, ?_⟩
  · rw [haliases]; exact h.known
  · rw [haliases]; exact h.listed
  · rw [haliases]; exact h.distinct

/-- A set that is known may be counted twice. -/
theorem Aliased.again (h : Aliased source done q) (hc : c ∈ done) : Aliased source (done ++ [c]) q := by
  have hmem : ∀ d, d ∈ source.toList ++ (done ++ [c]) ↔ d ∈ source.toList ++ done := by
    intro d
    simp only [List.mem_append, List.mem_singleton]
    constructor
    · rintro (hd | hd | rfl)
      · exact .inl hd
      · exact .inr hd
      · exact .inr hc
    · rintro (hd | hd)
      · exact .inl hd
      · exact .inr (.inl hd)
  refine ⟨h.scope, fun d hd => h.known d ((hmem d).1 hd), fun a ha => (h.listed a ha).mono ?_,
    fun hsingle hapart => h.distinct (fun d hd => hsingle d ((hmem d).2 hd)) fun d hd =>
      hapart d (List.mem_append_left _ hd)⟩
  intro b hb
  obtain ⟨d, hd, rfl⟩ := List.mem_map.1 hb
  exact List.mem_map_of_mem ((hmem d).2 hd)

/-- A set is joined to one that is known. -/
theorem Aliased.join (h : Aliased source done q) {p : Command} {o : Origin} (hr : o.relation.Mapped)
    (ho : c.origin = some o) (hp : p ∈ source.toList ++ done)
    (hjoin : o.relation.join p.aliasName c.aliasName kind q = .ok ⟨⟩ q')
    (hnew : ∀ d ∈ source.toList ++ done, d.aliasName ≠ c.aliasName) :
    Aliased source (done ++ [c]) q' := by
  obtain ⟨hscoped, haliases⟩ := Relation.join_scoped hr hjoin h.scope (h.known p hp)
  have hsets : source.toList ++ (done ++ [c]) = source.toList ++ done ++ [c] :=
    (List.append_assoc ..).symm
  have hname : p.aliasName ∈ (source.toList ++ done).map Command.aliasName := List.mem_map_of_mem hp
  constructor
  case scope => exact hscoped
  case known =>
    intro d hd
    rw [hsets] at hd
    rw [haliases]
    rcases List.mem_append.1 hd with hd | hd
    · exact List.mem_append_left _ (List.mem_append_left _ (h.known d hd))
    · rw [List.mem_singleton.1 hd]
      exact List.mem_append_right _ (List.mem_singleton_self _)
  case listed =>
    intro a ha
    rw [hsets, List.map_append, List.map_singleton]
    rw [haliases, List.mem_append, List.mem_append] at ha
    rcases ha with (ha | ha) | ha
    · exact (h.listed a ha).mono fun b hb => List.mem_append_left _ hb
    · rcases Relation.mem_between ha with ⟨rfl, -⟩ | ⟨entity, rfl⟩
      · exact .inl (List.mem_append_left _ hname)
      · exact .inr ⟨_, List.mem_append_left _ hname, _,
          List.mem_append_right _ (List.mem_singleton_self _), entity, rfl⟩
    · exact .inl (List.mem_append_right _ ha)
  case distinct =>
    intro hsingle hapart
    rw [hsets] at hsingle
    have hold := h.distinct (fun d hd => hsingle d (List.mem_append_left _ hd)) fun d hd =>
      hapart d (List.mem_append_left _ hd)
    rw [haliases]
    refine nodup_joined (fun a ha => ?_) h.listed
      (hapart c (List.mem_append_right _ (List.mem_singleton_self c)) o ho) hname (fun hmem => ?_) hold
    · rcases List.mem_cons.1 ha with rfl | ha
      · exact hsingle c (List.mem_append_right _ (List.mem_singleton_self c))
      · obtain ⟨d, hd, rfl⟩ := List.mem_map.1 ha
        exact hsingle d (List.mem_append_left _ hd)
    · obtain ⟨d, hd, heq⟩ := List.mem_map.1 hmem
      exact hnew d hd heq

/-- Every set of a chain is known once it has been written. -/
theorem Aliased.addCommand (h : Aliased source done q)
    (hstep : addCommand t root.id projections kind c q = .ok ⟨⟩ q')
    (hroot : c.id = root.id → c ∈ done)
    (hlater : c.id ≠ root.id → (∀ o p, c.origin = some o → t.get? o.parent = some p →
      o.relation.Mapped ∧ p ∈ done) ∧ ∀ d ∈ source.toList ++ done, d.aliasName ≠ c.aliasName) :
    Aliased source (done ++ [c]) q' := by
  obtain ⟨q₁, q₂, hjoined, hfields, hpredicates⟩ := addCommand_steps hstep
  have hnext : Aliased source (done ++ [c]) q₁ := by
    rcases hjoined with ⟨hid, rfl⟩ | ⟨hid, o, p, ho, hp, hjoin⟩
    · exact h.again (hroot hid)
    · obtain ⟨hparent, hnew⟩ := hlater hid
      obtain ⟨hr, hmem⟩ := hparent o p ho hp
      exact h.join hr ho (List.mem_append_right _ hmem) hjoin hnew
  have hmem : c ∈ source.toList ++ (done ++ [c]) :=
    List.mem_append_right _ (List.mem_append_right _ (List.mem_singleton_self c))
  have hselected := hnext.congr
    (Entity.selectFields_scoped hfields hnext.scope (hnext.known c hmem))
  exact hselected.congr (addPredicates_scoped hpredicates hselected.scope (hselected.known c hmem))

/-- A chain starts with its root, behind its source if it has one. -/
theorem startChain_aliased (h : startChain t root {} = .ok ⟨⟩ q)
    (hmapped : ∀ o, root.origin = some o → o.relation.Mapped)
    (hnew : ∀ p, root.parent.bind t.get? = some p → p.aliasName ≠ root.aliasName) :
    Aliased (root.parent.bind t.get?) [root] q := by
  have hfirst : ∀ c : Command, MadeOf [c.aliasName] c.aliasName :=
    fun c => .inl (List.mem_singleton_self _)
  unfold startChain at h
  cases ho : root.origin <;> rw [ho] at h
  case none =>
    rw [Command.parent, ho, ← step_set_ok h]
    refine ⟨Select.scoped_ofTable .., fun c hc => ?_, fun a ha => ?_, fun _ _ => List.nodup_singleton _⟩
    · rw [List.mem_singleton.1 hc]
      exact List.mem_singleton_self _
    · rw [List.mem_singleton.1 ha]
      exact hfirst root
  case some o =>
    obtain ⟨⟨p, r⟩, q₁, hlift, h⟩ := step_bind_ok h
    obtain ⟨hsource, rfl⟩ := step_lift_ok hlift
    obtain ⟨o', ho', hp, rfl⟩ := sourceOf_ok hsource
    rw [ho] at ho'
    cases ho'
    obtain ⟨⟨⟩, q₁, hset, h⟩ := step_bind_ok h
    have hq₁ := step_set_ok hset
    subst hq₁
    obtain ⟨⟨⟩, q₂, hfields, hjoin⟩ := step_bind_ok h
    have hparent : root.parent.bind t.get? = some p := by
      rw [Command.parent, ho, Option.map_some, Option.bind_some, hp]
    have hbegin : Aliased (some p) [] (Select.ofTable (.named p.entity.table) p.aliasName) := by
      refine ⟨Select.scoped_ofTable .., fun c hc => ?_, fun a ha => ?_,
        fun _ _ => List.nodup_singleton _⟩
      · rw [List.mem_singleton.1 hc]
        exact List.mem_singleton_self _
      · rw [List.mem_singleton.1 ha]
        exact hfirst p
    have hselected := hbegin.congr
      (Entity.selectFields_scoped hfields hbegin.scope (List.mem_singleton_self _))
    rw [hparent]
    refine hselected.join (hmapped o ho) ho (List.mem_singleton_self p) hjoin fun d hd => ?_
    rw [List.mem_singleton.1 hd]
    exact hnew p hparent

/-! ## The statement of a chain -/

variable {shape : ChainShape} {chain : Chain}

/-- A set that is not the root of its chain is loaded from one that comes before it, and has an alias
that neither the source of the chain nor any set before it has. -/
theorem later_in_chain (ht : t.Grown) (hshape : shape ∈ t.chainsFrom 0)
    (hroot : t.get? shape.root = some root) {pre post : List Command}
    (hsplit : shape.commands.filterMap t.get? = pre ++ c :: post) (hne : c.id ≠ root.id) :
    (∀ o p, c.origin = some o → t.get? o.parent = some p → p ∈ pre) ∧
      ∀ d ∈ (root.parent.bind t.get?).toList ++ root :: pre, d.aliasName ≠ c.aliasName := by
  have hordered := ht.ordered
  have hslots := Run.nodup_slotsOf ht hshape
  rw [Run.slotsOf, hsplit, CommandTree.source_eq hshape hroot, List.map_append, List.map_reverse,
    List.nodup_append, List.nodup_reverse, List.map_append, List.map_cons] at hslots
  obtain ⟨hsets, -, hsource⟩ := hslots
  obtain ⟨before, i, after, hids, rfl, hi⟩ := filterMap_split hsplit
  rw [hordered.ids hi, hordered.ids hroot] at hne
  rcases CommandTree.parent_before hordered hshape hids with ⟨-, rfl⟩ |
    ⟨d, p, hd, hdp, hfirst, hmem⟩
  · exact (hne rfl).elim
  rw [hi] at hd
  cases hd
  constructor
  · intro o parent ho hparent
    rw [Command.parent, ho] at hdp
    cases hdp
    exact List.mem_filterMap.2 ⟨_, hmem, hparent⟩
  · intro d hd heq
    rcases List.mem_append.1 hd with hd | hd
    · refine hsource c.aliasName (List.mem_reverse.2 ?_) _ (List.mem_map_of_mem hd) heq.symm
      exact List.mem_append_right _ (List.mem_cons_self ..)
    · have hd : d ∈ before.filterMap t.get? := by
        rcases List.mem_cons.1 hd with rfl | hd
        · exact List.mem_filterMap.2 ⟨_, hfirst, hroot⟩
        · exact hd
      exact (List.nodup_append.1 hsets).2.2 _ (List.mem_map_of_mem hd) _ (List.mem_cons_self ..) heq

/-- The statement of a chain knows its source, if it has one, and its sets. -/
theorem compile_aliased (ht : t.Grown)
    (hmapped : ∀ {i c o}, t.get? i = some c → c.origin = some o → o.relation.Mapped)
    (hshape : shape ∈ t.chainsFrom 0) (h : compile t projections kind shape = .ok chain) :
    ∃ root, t.get? shape.root = some root ∧
      Aliased (root.parent.bind t.get?) (root :: shape.commands.filterMap t.get?) chain.query := by
  obtain ⟨-, root, hroot, hwrite⟩ := compile_ok h
  refine ⟨root, hroot, ?_⟩
  unfold writeChain at hwrite
  obtain ⟨⟨⟩, q₀, hbegin, hwrite⟩ := step_bind_ok hwrite
  obtain ⟨⟨⟩, q₁, hcommands, hwrite⟩ := step_bind_ok hwrite
  obtain ⟨⟨⟩, q₂, horders, hpage⟩ := step_bind_ok hwrite
  have hstart : Aliased (root.parent.bind t.get?) [root] q₀ := by
    refine startChain_aliased hbegin (fun o ho => hmapped hroot ho) fun p hp heq => ?_
    obtain ⟨s, hs, hget⟩ := Option.bind_eq_some_iff.1 hp
    have hlt := ht.ordered.parent_lt hroot hs
    exact Nat.ne_of_lt hlt (ht.alias_inj hget hroot heq)
  have hsets : Aliased (root.parent.bind t.get?) (root :: shape.commands.filterMap t.get?) q₁ := by
    refine forM_builds (P := fun pre => Aliased (root.parent.bind t.get?) (root :: pre)) ?_ hstart
      hcommands
    intro pre c post hsplit q₃ q₄ hq hstep
    obtain ⟨i, -, hi⟩ := List.mem_filterMap.1
      (hsplit ▸ List.mem_append_right pre (List.mem_cons_self ..) :
        c ∈ shape.commands.filterMap t.get?)
    refine hq.addCommand hstep (fun hid => ?_) fun hid => ?_
    · rw [ht.ordered.ids hi, ht.ordered.ids hroot] at hid
      subst hid
      rw [hroot] at hi
      cases hi
      exact List.mem_cons_self ..
    · obtain ⟨hparent, hnew⟩ := later_in_chain ht hshape hroot hsplit hid
      exact ⟨fun o p ho hp => ⟨hmapped hi ho, List.mem_cons_of_mem _ (hparent o p ho hp)⟩, hnew⟩
  have hordered : q₂.Scoped ∧ q₂.aliases = q₁.aliases := by
    refine forM_scoped (fun c hc q₃ q₄ hscope heq horder => ?_) hsets.scope horders
    have hknown := hsets.known c (List.mem_append_right _ (List.mem_cons_of_mem _ hc))
    exact addOrder_scoped horder hscope (heq ▸ hknown)
  rw [← step_modify_ok hpage]
  exact hsets.congr ⟨hordered.1.paginate _, hordered.2⟩

end Plan

/-! ## The statements of a plan -/

/-- A tree whose relationships a schema has resolved. -/
def CommandTree.Resolved (t : CommandTree) (s : Schema) : Prop :=
  ∀ {i c o}, t.get? i = some c → c.origin = some o →
    ∃ entity name, s.resolved.get? (entity, name) = some o.relation

/-- A chain of a tree whose aliases can be told apart: the names of the entities of its sets and of its
source have no two underscores in a row, and no pivot is the source of its relationship alone. -/
structure ChainShape.WellNamed (t : CommandTree) (shape : ChainShape) : Prop where
  entities : ∀ c ∈ (shape.source.toList ++ shape.commands).filterMap t.get?,
    SingleUnderscores c.entity.name.toList
  pivots : ∀ c ∈ shape.commands.filterMap t.get?, ∀ o ∈ c.origin, o.relation.PivotApart

instance (t : CommandTree) (shape : ChainShape) : Decidable (shape.WellNamed t) :=
  decidable_of_iff ((∀ c ∈ (shape.source.toList ++ shape.commands).filterMap t.get?,
      SingleUnderscores c.entity.name.toList) ∧
    ∀ c ∈ shape.commands.filterMap t.get?, ∀ o ∈ c.origin, o.relation.PivotApart)
    ⟨fun h => ⟨h.1, h.2⟩, fun h => ⟨h.entities, h.pivots⟩⟩

namespace Plan

/-- The statements of a plan speak of the tables that they introduce and of no other, each join of those
before it and of its own; and they know every table under an alias of its own, if the sets of the chain
are well named. -/
theorem aliases_scoped {t : CommandTree} {cfg : Settings} {s s' : Schema} {plan : Plan}
    (hs : s.Reachable) (ht : t.Grown) (hresolved : t.Resolved s)
    (hmake : make t cfg s = .ok plan s') : ∀ chain ∈ plan.chains,
      chain.query.Scoped ∧ (chain.WellNamed t → chain.query.aliases.Nodup) := by
  obtain ⟨-, hmade⟩ := make_ok (P := fun _ => True) (fun _ _ _ _ _ _ => trivial) trivial hmake
  have hmapped : ∀ {i c o}, t.get? i = some c → c.origin = some o → o.relation.Mapped := by
    intro i c o hc ho
    obtain ⟨entity, name, hget⟩ := hresolved hc ho
    obtain ⟨pairs, hbuilt⟩ := Relation.build_ok (hs.coherent entity name o.relation hget)
    exact ⟨s.catalog, pairs, by rw [hbuilt.named]; exact hbuilt.mapping⟩
  intro chain hchain
  obtain ⟨shape, hshape, hcompile⟩ := forall₂_mem_right hmade.chains chain hchain
  obtain ⟨rfl, -⟩ := compile_ok hcompile
  obtain ⟨root, hroot, haliased⟩ := compile_aliased ht hmapped hshape hcompile
  have hmem : ∀ c ∈ root :: chain.commands.filterMap t.get?,
      c ∈ chain.commands.filterMap t.get? := by
    intro c hc
    rcases List.mem_cons.1 hc with rfl | hc
    · exact List.mem_filterMap.2 ⟨_, CommandTree.root_mem_commands hshape, hroot⟩
    · exact hc
  refine ⟨haliased.scope, fun hnamed => haliased.distinct (fun c hc => ?_) fun c hc o ho =>
    hnamed.pivots c (hmem c hc) o ho⟩
  have hlisted : c ∈ (chain.source.toList ++ chain.commands).filterMap t.get? := by
    rw [List.filterMap_append]
    rcases List.mem_append.1 hc with hc | hc
    · obtain ⟨i, hi, hget⟩ := Option.bind_eq_some_iff.1 (Option.mem_toList.1 hc)
      refine List.mem_append_left _ (List.mem_filterMap.2 ⟨i, ?_, hget⟩)
      rw [CommandTree.source_eq hshape hroot]
      exact Option.mem_toList.2 hi
    · exact List.mem_append_right _ (hmem c hc)
  obtain ⟨i, -, hget⟩ := List.mem_filterMap.1 hlisted
  exact (ht.isAlias hget).single (hnamed.entities c hlisted)

/-! ## Books by their tags, and by the pupils of an author -/

/-- Between a book and its tags the statement knows the pivot under an alias of its own. -/
theorem aliases_scoped_tagged : ∃ t s plan s', s.Reachable ∧ t.Grown ∧ t.Resolved s ∧
    make t {} s = .ok plan s' ∧ (∀ chain ∈ plan.chains, chain.WellNamed t) ∧
      plan.chains.map (fun chain => chain.query.aliases) =
        [["BOOK1"], ["BOOK1", "BOOK1__TAG2__BOOK2TAG", "TAG2"]] ∧
      ∀ chain ∈ plan.chains, chain.query.Scoped ∧ chain.query.aliases.Nodup := by
  have hfacts : ((pair? Schema.tagged Schema.book "TAGZ").any fun (t, s) =>
      (made? t {} s).any fun plan => decide ((∀ chain ∈ plan.chains, chain.WellNamed t) ∧
        plan.chains.map (fun chain => chain.query.aliases) =
          [["BOOK1"], ["BOOK1", "BOOK1__TAG2__BOOK2TAG", "TAG2"]])) = true := by
    decide +kernel
  obtain ⟨⟨t, s⟩, hpair, hfacts⟩ := (Option.any_eq_true _ _).1 hfacts
  obtain ⟨plan, hmade, hfacts⟩ := (Option.any_eq_true _ _).1 hfacts
  obtain ⟨hnamed, haliases⟩ := of_decide_eq_true hfacts
  obtain ⟨hs, hasked⟩ := pair?_some (.ofLists _ _) (by decide +kernel) hpair
  obtain ⟨s', hmake⟩ := made?_some hmade
  have hscoped := aliases_scoped hs hasked.grown hasked.relations hmake
  exact ⟨t, s, plan, s', hs, hasked.grown, hasked.relations, hmake, hnamed, haliases,
    fun chain hchain => ⟨(hscoped chain hchain).1, (hscoped chain hchain).2 (hnamed chain hchain)⟩⟩

/-- Authors, each of whom may have a mentor. -/
def scholar : Entity where
  name := "AUTHOR"
  table := "author"
  columns := .ofList [("id", "id"), ("mentor_id", "mentor_id")]
  primaryKey := ["id"]
  foreignKeys := .empty
  primaryKey_ne_nil := Schema.id_ne_nil
  primaryKey_declared := by decide
  foreignKeys_declared := by decide

/-- The books of the authors whose mentor an author is. -/
def pupilBooks : RelationDefinition where
  name := "PUPILBOOKS"
  target := some "BOOK"
  kind := some .manyToMany
  mapping := some (.throughPivot "AUTHOR" [("id", "mentor_id")] [("id", "author_id")])

/-- Authors with their pupils, and books. -/
def school : Schema := .ofLists [scholar, book] [("AUTHOR", pupilBooks)]

/-- The pupils are joined under the alias of their mentor, which the statement knows already. -/
theorem alias_repeated : ¬ ∀ (t : CommandTree) (cfg : Settings) (s s' : Schema) (plan : Plan),
    s.Reachable → t.Grown → t.Resolved s → make t cfg s = .ok plan s' →
    ∀ chain ∈ plan.chains, chain.query.aliases.Nodup := by
  intro h
  have hfacts : ((pair? school scholar "PUPILBOOKS").any fun (t, s) => (made? t {} s).any fun plan =>
      decide (plan.chains.map (fun chain => chain.query.aliases) =
        [["AUTHOR1"], ["AUTHOR1", "AUTHOR1", "BOOK2"]])) = true := by
    decide +kernel
  obtain ⟨⟨t, s⟩, hpair, hfacts⟩ := (Option.any_eq_true _ _).1 hfacts
  obtain ⟨plan, hmade, hfacts⟩ := (Option.any_eq_true _ _).1 hfacts
  have haliases := of_decide_eq_true hfacts
  obtain ⟨hs, hasked⟩ := pair?_some (.ofLists _ _) (by decide +kernel) hpair
  obtain ⟨s', hmake⟩ := made?_some hmade
  have hall := h t {} s s' plan hs hasked.grown hasked.relations hmake
  have hmem : ["AUTHOR1", "AUTHOR1", "BOOK2"] ∈ plan.chains.map fun chain => chain.query.aliases := by
    rw [haliases]
    exact List.mem_cons_of_mem _ (List.mem_singleton_self _)
  obtain ⟨chain, hchain, heq⟩ := List.mem_map.1 hmem
  have hnodup := hall chain hchain
  rw [heq] at hnodup
  exact absurd hnodup (by decide)

end Plan

end GraphLoad
