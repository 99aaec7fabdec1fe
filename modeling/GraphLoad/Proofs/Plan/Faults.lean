/-
Why planning fails. A tree has faults: the fields that its commands name and their entities do not
have, and the declared ways back that fail to resolve. Main statement: planning goes through the faults
of a tree in their order and answers the first of them, and a tree without faults has a plan; so there
are no further ways to fail, a source that is missing and a join without bindings among them.
-/
import GraphLoad.Proofs.Plan.Scope
import GraphLoad.Proofs.Schema.Cache

namespace GraphLoad

open Sql

/-! ## Faults -/

/-- The fault of a field that an entity does not have. -/
def Entity.lacks (e : Entity) (field : String) : List LoadError :=
  if e.hasField field then [] else [.unknownField e.name field]

/-- The fault of a way back that was declared and does not resolve. One of which nothing is known is
none. -/
def Schema.astray (s : Schema) (r : Relation) : List LoadError :=
  match answer (Schema.reverse r) s with
  | .ok _ => []
  | .error e => if e.code = .unknownRelationship ∨ r.reverseDeclared = false then [] else [e]

namespace Command

/-- The fields that a command names: in its projection, its predicates and its ordering. -/
def named (c : Command) : List String :=
  c.modifiers.projection.listed ++ c.modifiers.predicates.map Predicate.field ++
    c.modifiers.order.map OrderTerm.field

/-- What is wrong with the fields chosen and the way back of a command. -/
def unresolved (s : Schema) (c : Command) : List LoadError :=
  c.modifiers.projection.listed.flatMap c.entity.lacks ++
    c.origin.toList.flatMap fun o => s.astray o.relation

/-- What is wrong with the predicates of a command. -/
def unfiltered (c : Command) : List LoadError :=
  c.modifiers.predicates.flatMap fun p => c.entity.lacks p.field

/-- What is wrong with the ordering of a command. -/
def unordered (c : Command) : List LoadError :=
  c.modifiers.order.flatMap fun term => c.entity.lacks term.field

end Command

namespace CommandTree

/-- The commands of a chain. -/
def along (t : CommandTree) (shape : ChainShape) : List Command := shape.commands.filterMap t.get?

/-- What is wrong with a tree, in the order in which planning comes to it: command by command, then chain
by chain, first what its sets are restricted by and then what they are ordered by. -/
def faults (t : CommandTree) (s : Schema) : List LoadError :=
  t.commands.flatMap (Command.unresolved s) ++ (t.chainsFrom 0).flatMap fun shape =>
    (t.along shape).flatMap Command.unfiltered ++ (t.along shape).flatMap Command.unordered

end CommandTree

theorem Entity.mem_lacks {e : Entity} {field : String} {x : LoadError} :
    x ∈ e.lacks field ↔ e.hasField field = false ∧ x = .unknownField e.name field := by
  unfold lacks
  split
  · rename_i h
    rw [h]
    exact ⟨nofun, nofun⟩
  · rename_i h
    rw [List.mem_singleton, Bool.eq_false_iff]
    exact ⟨fun hx => ⟨h, hx⟩, And.right⟩

theorem Entity.lacks_eq_nil {e : Entity} {field : String} (h : e.hasField field = true) :
    e.lacks field = [] := if_pos h

theorem Schema.mem_astray {s : Schema} {r : Relation} {e : LoadError} :
    e ∈ s.astray r ↔ r.reverseDeclared = true ∧ answer (Schema.reverse r) s = .error e ∧
      e.code ≠ .unknownRelationship := by
  unfold astray
  cases answer (Schema.reverse r) s with
  | ok back => exact ⟨nofun, nofun⟩
  | error e' =>
    dsimp only
    split
    · rename_i hpassed
      refine ⟨nofun, fun ⟨hdeclared, heq, hcode⟩ => ?_⟩
      cases heq
      rw [hdeclared] at hpassed
      exact (hpassed.resolve_right nofun |> hcode).elim
    · rename_i hpassed
      rw [not_or, Bool.not_eq_false] at hpassed
      rw [List.mem_singleton]
      constructor
      · rintro rfl
        exact ⟨hpassed.2, rfl, hpassed.1⟩
      · rintro ⟨-, heq, -⟩
        cases heq
        rfl

/-! ## Errors of relationships -/

/-- A result that, if it is an error, is one of configuration. -/
def Configured {α : Type} (x : Except LoadError α) : Prop :=
  ∀ e, x = .error e → e.code.stage = 1

namespace Configured

variable {α β : Type}

theorem ok (a : α) : Configured (.ok a) := fun _ h => nomatch h

theorem bind {x : Except LoadError α} {f : α → Except LoadError β} (hx : Configured x)
    (hf : ∀ a, Configured (f a)) : Configured (x >>= f) := by
  intro e h
  rcases except_bind_error h with h | ⟨a, -, h⟩
  · exact hx e h
  · exact hf a e h

theorem of_code {e : LoadError} (code : ErrorCode) (hcode : e.code = code) (h : code.stage = 1) :
    Configured (.error e : Except LoadError α) := by
  rintro _ ⟨⟩
  rw [hcode]
  exact h

end Configured

theorem Catalog.configured_entity (c : Catalog) (name : String) : Configured (c.entity name) := by
  unfold entity
  split
  · exact .ok _
  · exact .of_code .unknownEntity rfl rfl

namespace Relation

theorem configured_foreignKey (owner referenced : Entity) (source name : String) :
    Configured (foreignKey owner referenced source name) := by
  have hconventional : ∀ fields, Configured (conventionalPairs owner referenced source name fields) := by
    intro fields
    induction fields with
    | nil => exact .ok _
    | cons field fields ih =>
      unfold conventionalPairs
      dsimp only
      split
      · exact ih.bind fun _ => .ok _
      · exact .of_code .invalidMapping rfl rfl
  unfold foreignKey
  split
  · exact .ok _
  · exact hconventional _

theorem configured_conventionalMapping (catalog : Catalog) (source target : Entity)
    (kind : RelationKind) (name : String) :
    Configured (conventionalMapping catalog source target kind name) := by
  have hpivot : Configured (conventionalPivot catalog source target name) := by
    unfold conventionalPivot
    dsimp only
    split
    · exact .ok _
    · exact .of_code .invalidMapping rfl rfl
  cases kind
  case manyToMany =>
    exact hpivot.bind fun _ => .bind (configured_foreignKey _ _ _ _) fun _ =>
      .bind (configured_foreignKey _ _ _ _) fun _ => .ok _
  all_goals exact .bind (configured_foreignKey _ _ _ _) fun _ => .ok _

theorem configured_bindGroup (source target : Entity) (name : String) (m : JoinMapping)
    (pairs : List (String × String)) : Configured (bindGroup source target name m pairs) := by
  have hfield : ∀ (entity : Entity) (field : String),
      Configured (requireField entity field source.name name) := by
    intro entity field
    unfold requireField
    split
    · exact .ok _
    · exact .of_code .invalidMapping rfl rfl
  have hpairs : Configured (bindPairs source target name m pairs) := by
    induction pairs generalizing m with
    | nil => exact .ok _
    | cons pair pairs ih =>
      exact (hfield source pair.1).bind fun _ => (hfield target pair.2).bind fun _ => ih _
  unfold bindGroup
  split
  · exact .of_code .invalidMapping rfl rfl
  · exact hpairs

/-- A relationship that cannot be made is not configured as it should be. -/
theorem configured_build (catalog : Catalog) (entity name : String)
    (definition : Option RelationDefinition) : Configured (build catalog entity name definition) := by
  have htarget : Configured (targetEntity catalog entity name definition) := by
    unfold targetEntity
    dsimp only
    split
    · exact .ok _
    · exact .of_code .unknownEntity rfl rfl
    · exact .of_code .unknownRelationship rfl rfl
  have hmapping : ∀ source target pairs,
      Configured (joinMapping catalog source target name pairs) := by
    intro source target pairs
    cases pairs with
    | direct pairs => exact .bind (configured_bindGroup _ _ _ _ _) fun _ => .ok _
    | throughPivot pivot toPivot toTarget =>
      exact (catalog.configured_entity pivot).bind fun _ =>
        .bind (configured_bindGroup _ _ _ _ _) fun _ =>
          .bind (configured_bindGroup _ _ _ _ _) fun _ => .ok _
  refine (catalog.configured_entity entity).bind fun source => htarget.bind fun target => ?_
  dsimp only
  cases definition.bind (·.mapping) with
  | some pairs => exact (hmapping source target pairs).bind fun _ => .ok _
  | none =>
    exact .bind (configured_conventionalMapping _ _ _ _ _) fun pairs =>
      (hmapping source target pairs).bind fun _ => .ok _

end Relation

/-! ## Naming fields -/

section
variable {P : Select → Prop} {aliasName : String}

theorem Entity.finds_fieldExpr (e : Entity) (aliasName field : String) :
    Finds (e.lacks field) (e.fieldExpr aliasName field) := by
  unfold lacks hasField OrderedMap.contains fieldExpr
  cases e.columns.get? field <;> rfl

theorem Projection.finds_resolve (p : Projection) (e : Entity) :
    Finds (p.listed.flatMap e.lacks) (p.resolve e) := by
  unfold resolve
  induction p.listed with
  | nil => exact List.flatMap_nil
  | cons field fields ih =>
    rw [List.flatMap_cons, List.find?_cons]
    cases h : e.hasField field with
    | true =>
      rw [Entity.lacks_eq_nil h]
      exact ih
    | false =>
      rw [Entity.lacks, h]
      rfl

/-- A projection resolves to fields of the entity. -/
theorem Projection.declared_of_resolve {p : Projection} {e : Entity} {fields : List String}
    (h : p.resolve e = .ok fields) : ∀ field ∈ fields, e.hasField field = true := by
  intro field hfield
  unfold resolve at h
  split at h
  · cases h
  · cases h
    exact (e.columns.contains_iff_mem_keys field).2 (List.mem_filter.1 hfield).1

theorem checks_modify (f : Select → Select) :
    Checks (fun _ => True) [] (modify f : Building Unit) := fun _ _ => ⟨trivial, rfl⟩

/-- Writing what a field gives into a statement goes wrong only with the field. -/
theorem Entity.checks_field (e : Entity) (aliasName field : String) (f : Expr → Select → Select) :
    Checks (fun _ => True) (e.lacks field)
      (do let x ← lift (e.fieldExpr aliasName field); modify (f x) : Building Unit) := by
  rw [← List.append_nil (e.lacks field)]
  exact (Checks.lift (e.finds_fieldExpr aliasName field)).bind fun _ x _ _ _ => checks_modify (f x)

theorem Entity.checks_selectFields {e : Entity} {fields : List String}
    (h : ∀ field ∈ fields, e.hasField field = true) :
    Checks (fun _ => True) [] (e.selectFields aliasName fields) := by
  have hall : Checks (fun _ => True) (fields.flatMap e.lacks) (e.selectFields aliasName fields) :=
    Checks.forM fun field _ => e.checks_field aliasName field _
  rwa [List.flatMap_eq_nil_iff.2 fun field hfield => Entity.lacks_eq_nil (h field hfield)] at hall

end

/-! ## Writing statements -/

/-- A relationship that has been made joins without fail. -/
theorem Relation.checks_join {r : Relation} (hr : r.mapping.Binds r.Knows)
    (sourceAlias targetAlias : String) (kind : JoinKind) :
    Checks (fun _ => True) [] (r.join sourceAlias targetAlias kind) := by
  intro q _
  rw [Relation.join_eq hr]
  exact ⟨trivial, rfl⟩

namespace Plan

variable {t : CommandTree} {root c : Command} {projections : List (List String)}

theorem sourceOf_eq {o : Origin} {p : Command} (ho : c.origin = some o)
    (hp : t.get? o.parent = some p) : sourceOf t c = .ok (p, o.relation) := by
  simp only [sourceOf, ho, hp]

/-- A tree each of whose commands has a source, if it has an origin, and a relationship that joins. -/
def Sourced (t : CommandTree) : Prop :=
  ∀ {i c o}, t.get? i = some c → c.origin = some o →
    (∃ p, t.get? o.parent = some p) ∧ o.relation.mapping.Binds o.relation.Knows

theorem sourced_of_resolved {s : Schema} (hs : s.Reachable) (ht : t.Ordered) (hresolved : t.Resolved s) :
    Sourced t := by
  intro i c o hc ho
  obtain ⟨-, p, hp, -⟩ := ht.sources hc ho
  obtain ⟨entity, name, hget⟩ := hresolved hc ho
  obtain ⟨pairs, hbuilt⟩ := Relation.build_ok (hs.coherent entity name o.relation hget)
  exact ⟨⟨p, hp⟩, hbuilt.binds⟩

theorem checks_startChain (hsourced : Sourced t) {i : Nat} (hroot : t.get? i = some root) :
    Checks (fun _ => True) [] (startChain t root) := by
  unfold startChain
  cases ho : root.origin with
  | none => exact fun _ _ => ⟨trivial, rfl⟩
  | some o =>
    obtain ⟨⟨p, hp⟩, hbinds⟩ := hsourced hroot ho
    have hkey : ∀ field ∈ p.entity.primaryKey, p.entity.hasField field = true := fun field hfield =>
      (p.entity.columns.contains_iff_mem_keys field).2 (p.entity.primaryKey_declared field hfield)
    rw [sourceOf_eq ho hp]
    refine Checks.lift_ok (Checks.next (fun _ _ => ⟨trivial, rfl⟩) fun _ => ?_)
    exact (Entity.checks_selectFields hkey).next fun _ => Relation.checks_join hbinds _ _ _

/-- Projections by which every command of a tree loads fields of its entity. -/
def Declared (t : CommandTree) (projections : List (List String)) : Prop :=
  ∀ {i c}, t.get? i = some c → ∀ field ∈ projections[c.id]?.getD [], c.entity.hasField field = true

/-- A set is written into a statement unless one of its predicates is wrong. -/
theorem checks_addCommand (hsourced : Sourced t) (hdeclared : Declared t projections)
    (ht : t.Ordered) (kind : JoinKind) {i : Nat} (hc : t.get? i = some c)
    (hfirst : c.origin = none → i = root.id) :
    Checks (fun _ => True) c.unfiltered (addCommand t root.id projections kind c) := by
  have hfields : Checks (fun _ => True) c.unfiltered (do
      c.entity.selectFields c.aliasName (projections[c.id]?.getD [])
      c.modifiers.predicates.forM (addPredicate c) : Building Unit) :=
    (Entity.checks_selectFields (hdeclared hc)).next fun _ =>
      Checks.forM fun p _ => c.entity.checks_field c.aliasName p.field _
  unfold addCommand
  by_cases hid : c.id = root.id
  · rw [if_neg (not_not_intro hid)]
    exact hfields
  · rw [if_pos hid]
    cases ho : c.origin with
    | none => exact (hid ((ht.ids hc).trans (hfirst ho))).elim
    | some o =>
      obtain ⟨⟨p, hp⟩, hbinds⟩ := hsourced hc ho
      rw [sourceOf_eq ho hp]
      exact Checks.lift_ok ((Relation.checks_join hbinds _ _ _).next fun _ => hfields)

theorem checks_addOrder (c : Command) : Checks (fun _ => True) c.unordered (addOrder c) :=
  Checks.forM fun term _ => c.entity.checks_field c.aliasName term.field _

/-- The statement of a chain is written unless one of its sets has a wrong predicate, or a wrong
ordering. -/
theorem checks_writeChain (hsourced : Sourced t) (hdeclared : Declared t projections) (ht : t.Ordered)
    (kind : JoinKind) {commands : List Command} (hroot : t.get? root.id = some root)
    (hcommands : ∀ c ∈ commands, ∃ i, t.get? i = some c ∧ (c.origin = none → i = root.id)) :
    Checks (fun _ => True) (commands.flatMap Command.unfiltered ++ commands.flatMap Command.unordered)
      (writeChain t projections kind root commands) := by
  refine (checks_startChain hsourced hroot).next fun _ => ?_
  refine (Checks.forM fun c hc => ?_).bind fun _ _ _ _ _ => ?_
  · obtain ⟨i, hget, hfirst⟩ := hcommands c hc
    exact checks_addCommand hsourced hdeclared ht kind hget hfirst
  · rw [← List.append_nil (commands.flatMap Command.unordered)]
    exact (Checks.forM fun c _ => checks_addOrder c).bind fun _ _ _ _ _ => checks_modify _

/-- Compiling a chain of a tree finds what is wrong with the chain. -/
theorem finds_compile (hsourced : Sourced t) (hdeclared : Declared t projections) (ht : t.Ordered)
    (kind : JoinKind) {shape : ChainShape} (hshape : shape ∈ t.chainsFrom 0) :
    Finds ((t.along shape).flatMap Command.unfiltered ++ (t.along shape).flatMap Command.unordered)
      (compile t projections kind shape) := by
  obtain ⟨root, hroot⟩ := CommandTree.get?_of_lt ((CommandTree.partition_chainsFrom ht).commands
    shape hshape shape.root (CommandTree.root_mem_commands hshape))
  have hid := ht.ids hroot
  have hcommands : ∀ c ∈ t.along shape, ∃ i, t.get? i = some c ∧ (c.origin = none → i = root.id) := by
    intro c hc
    obtain ⟨i, hi, hget⟩ := List.mem_filterMap.1 hc
    refine ⟨i, hget, fun ho => ?_⟩
    rw [hid]
    exact (CommandTree.root_of_origin ht hshape hi hget ho).1
  have hends := checks_writeChain hsourced hdeclared ht kind (hid.symm ▸ hroot) hcommands {} trivial
  unfold compile
  rw [hroot]
  dsimp only
  split
  · rename_i q hq
    exact (hends.ok hq).2
  · rename_i e q hq
    exact hends.error hq

/-! ## Making plans -/

section
variable {s : Schema}

/-- Whatever has been resolved in the meantime, a way back is astray or not as it was. -/
theorem checks_resolveReverse (hs : s.Coherent) (r : Relation) :
    Checks s.Resolves (s.astray r) (resolveReverse r) := by
  intro s₁ h₁
  have hmoves := (Schema.uncached_resolveReverse r).moves s₁
  have hanswer : answer (Schema.reverse r) s = s₁.build r.target.name r.reverseName := by
    rw [Schema.build_eq h₁]
    exact Schema.answer_relation hs _ _
  unfold Schema.astray
  rw [hanswer]
  rw [Schema.resolveReverse_eq (h₁.coherent hs)] at hmoves ⊢
  cases hbuild : s₁.build r.target.name r.reverseName with
  | ok back =>
    rw [hbuild] at hmoves
    exact ⟨h₁.trans hmoves, rfl⟩
  | error e =>
    dsimp only
    split
    · exact ⟨h₁, rfl⟩
    · rfl

theorem checks_resolveCommand (hs : s.Coherent) (c : Command) :
    Checks s.Resolves (c.unresolved s) (resolveCommand c) := by
  unfold resolveCommand Command.unresolved
  refine (Checks.lift (Projection.finds_resolve _ _)).bind fun _ fields _ _ _ => ?_
  cases c.origin with
  | none => exact Checks.pure _
  | some o =>
    rw [Option.toList_some, List.flatMap_singleton, ← List.append_nil (s.astray o.relation)]
    exact (checks_resolveReverse hs o.relation).bind fun _ back _ _ _ => Checks.pure _

/-- Making the plan of a tree finds what is wrong with the tree, and nothing else. -/
theorem checks_make (hs : s.Reachable) (ht : t.Ordered) (hresolved : t.Resolved s) (cfg : Settings) :
    Checks s.Resolves (t.faults s) (make t cfg) := by
  refine (Checks.mapM fun c _ => checks_resolveCommand hs.coherent c).bind
    fun s₀ resolved s₁ hs₀ hmap => ?_
  have hdeclared : Declared t (resolved.map (·.1)) := by
    obtain ⟨-, hall⟩ := step_mapM_ok (P := fun _ => True) (fun _ _ _ _ _ _ => trivial) trivial hmap
    intro i c hc field hfield
    rw [ht.ids hc, List.getElem?_map] at hfield
    cases hget : resolved[i]? with
    | none =>
      rw [hget] at hfield
      cases hfield
    | some x =>
      rw [hget] at hfield
      obtain ⟨s₂, s₃, -, hx⟩ := forall₂_getElem? hall hc hget
      exact Projection.declared_of_resolve (resolveCommand_ok hx).1 field hfield
  have hcompile := Finds.mapM fun shape hshape =>
    finds_compile (sourced_of_resolved hs ht hresolved) hdeclared ht cfg.join hshape
  rw [← List.append_nil (List.flatMap _ (t.chainsFrom 0))]
  exact (Checks.lift hcompile).bind fun _ _ _ _ _ => Checks.pure _

end

/-! ## Two reasons -/

end Plan

/-- A tree with a command that names a field its entity does not have, and the error that says so. -/
def CommandTree.Misnames (t : CommandTree) (e : LoadError) : Prop :=
  ∃ c ∈ t.commands, ∃ field ∈ c.named, c.entity.hasField field = false ∧
    e = .unknownField c.entity.name field

/-- A tree with a relationship whose declared way back fails to resolve, and the error it fails with. -/
def CommandTree.Strays (t : CommandTree) (s : Schema) (e : LoadError) : Prop :=
  ∃ c ∈ t.commands, ∃ o, c.origin = some o ∧ o.relation.reverseDeclared = true ∧
    answer (Schema.reverse o.relation) s = .error e ∧ e.code ≠ .unknownRelationship

theorem CommandTree.mem_along {t : CommandTree} (ht : t.Ordered) {c : Command} :
    c ∈ t.commands ↔ ∃ shape ∈ t.chainsFrom 0, c ∈ t.along shape := by
  constructor
  · intro hc
    obtain ⟨i, hget⟩ := List.getElem?_of_mem hc
    obtain ⟨k, shape, hk, hcount, -⟩ := (partition_chainsFrom ht).once i (get?_lt hget)
    have hi : i ∈ shape.commands := List.count_pos_iff.1 (hcount ▸ Nat.one_pos)
    exact ⟨shape, List.mem_of_getElem? hk, List.mem_filterMap.2 ⟨i, hi, hget⟩⟩
  · rintro ⟨shape, -, hc⟩
    obtain ⟨i, -, hget⟩ := List.mem_filterMap.1 hc
    exact List.mem_of_getElem? hget

/-- Everything that is wrong with a command is found, its fields and its way back. -/
theorem CommandTree.mem_faults_iff {t : CommandTree} (ht : t.Ordered) {s : Schema} {e : LoadError} :
    e ∈ t.faults s ↔ ∃ c ∈ t.commands, e ∈ c.named.flatMap c.entity.lacks ∨
      ∃ o, c.origin = some o ∧ e ∈ s.astray o.relation := by
  have hnamed : ∀ c : Command, c.named.flatMap c.entity.lacks =
      c.modifiers.projection.listed.flatMap c.entity.lacks ++ c.unfiltered ++ c.unordered := by
    intro c
    simp only [Command.named, Command.unfiltered, Command.unordered, List.flatMap_append,
      List.flatMap_map]
  have hback : ∀ c : Command, (e ∈ c.origin.toList.flatMap fun o => s.astray o.relation) ↔
      ∃ o, c.origin = some o ∧ e ∈ s.astray o.relation := by
    intro c
    simp only [List.mem_flatMap, Option.mem_toList]
  simp only [faults, Command.unresolved, hnamed, List.mem_append, List.mem_flatMap (l := t.commands),
    List.mem_flatMap (l := t.chainsFrom 0), List.mem_flatMap (l := t.along _), hback]
  constructor
  · rintro (⟨c, hc, he | he⟩ | ⟨shape, hshape, ⟨c, hc, he⟩ | ⟨c, hc, he⟩⟩)
    · exact ⟨c, hc, .inl (.inl (.inl he))⟩
    · exact ⟨c, hc, .inr he⟩
    · exact ⟨c, (mem_along ht).2 ⟨shape, hshape, hc⟩, .inl (.inl (.inr he))⟩
    · exact ⟨c, (mem_along ht).2 ⟨shape, hshape, hc⟩, .inl (.inr he)⟩
  · rintro ⟨c, hc, ((he | he) | he) | he⟩
    · exact .inl ⟨c, hc, .inl he⟩
    · obtain ⟨shape, hshape, hc⟩ := (mem_along ht).1 hc
      exact .inr ⟨shape, hshape, .inl ⟨c, hc, he⟩⟩
    · obtain ⟨shape, hshape, hc⟩ := (mem_along ht).1 hc
      exact .inr ⟨shape, hshape, .inr ⟨c, hc, he⟩⟩
    · exact .inl ⟨c, hc, .inr he⟩

/-- The faults of a tree are of two sorts. -/
theorem CommandTree.mem_faults {t : CommandTree} (ht : t.Ordered) {s : Schema} {e : LoadError} :
    e ∈ t.faults s ↔ t.Misnames e ∨ t.Strays s e := by
  rw [mem_faults_iff ht]
  simp only [List.mem_flatMap, Entity.mem_lacks, Schema.mem_astray, and_or_left, exists_or, Misnames,
    Strays]

namespace Plan

/-- How planning a tree fails. -/
structure Fallible (t : CommandTree) (cfg : Settings) (s : Schema) : Prop where
  /-- It fails for two reasons. -/
  reasons : (∃ e, answer (make t cfg) s = .error e) ↔ (∃ e, t.Misnames e) ∨ ∃ e, t.Strays s e
  /-- Where only the first applies, an unknown field is the error. -/
  misnamed : (∀ e, ¬ t.Strays s e) → ∀ e, answer (make t cfg) s = .error e →
    e.code = .unknownField ∧ t.Misnames e
  /-- Where only the second applies, a way back fails with that error. -/
  astray : (∀ e, ¬ t.Misnames e) → ∀ e, answer (make t cfg) s = .error e → t.Strays s e
  /-- It is never the library that is wrong. -/
  configuration : ∀ e, answer (make t cfg) s = .error e → e.code ≠ .internal ∧ e.code.stage = 1
  /-- No join of a relationship that has been resolved fails. -/
  joins : ∀ entity name r, s.resolved.get? (entity, name) = some r →
    ∀ sourceAlias targetAlias kind q, ∃ q', r.join sourceAlias targetAlias kind q = .ok ⟨⟩ q'

/-- Planning fails only for fields that are not there and for declared ways back that lead astray. -/
theorem make_fallible {t : CommandTree} {s : Schema} (hs : s.Reachable) (ht : t.Grown)
    (hresolved : t.Resolved s) (cfg : Settings) : Fallible t cfg s := by
  have hfinds := (checks_make hs ht.ordered hresolved cfg).finds (Schema.Resolves.refl s)
  have hfault : ∀ e, answer (make t cfg) s = .error e → t.Misnames e ∨ t.Strays s e := by
    intro e he
    rw [he] at hfinds
    exact (CommandTree.mem_faults ht.ordered).1 (List.mem_of_mem_head? hfinds)
  constructor
  case reasons =>
    constructor
    · rintro ⟨e, he⟩
      exact (hfault e he).imp (⟨e, ·⟩) (⟨e, ·⟩)
    · intro hreasons
      obtain ⟨e, he⟩ : ∃ e, e ∈ t.faults s := by
        rcases hreasons with ⟨e, he⟩ | ⟨e, he⟩
        · exact ⟨e, (CommandTree.mem_faults ht.ordered).2 (.inl he)⟩
        · exact ⟨e, (CommandTree.mem_faults ht.ordered).2 (.inr he)⟩
      cases hmake : answer (make t cfg) s with
      | error e => exact ⟨e, rfl⟩
      | ok plan =>
        rw [hmake] at hfinds
        exact (List.ne_nil_of_mem he hfinds).elim
  case misnamed =>
    intro hnone e he
    have hmisnames := (hfault e he).resolve_right (hnone e)
    obtain ⟨c, -, field, -, -, rfl⟩ := id hmisnames
    exact ⟨rfl, hmisnames⟩
  case astray => exact fun hnone e he => (hfault e he).resolve_left (hnone e)
  case configuration =>
    intro e he
    have hstage : e.code.stage = 1 := by
      rcases hfault e he with ⟨c, -, field, -, -, rfl⟩ | ⟨c, -, o, -, -, hback, -⟩
      · exact show ErrorCode.stage .unknownField = 1 from rfl
      · rw [Schema.reverse, Schema.answer_relation hs.coherent] at hback
        exact Relation.configured_build _ _ _ _ e hback
    refine ⟨fun hinternal => ?_, hstage⟩
    rw [hinternal] at hstage
    exact absurd hstage (by decide)
  case joins =>
    intro entity name r hget sourceAlias targetAlias kind q
    obtain ⟨pairs, hbuilt⟩ := Relation.build_ok (hs.coherent entity name r hget)
    exact ⟨_, Relation.join_eq hbuilt.binds q⟩

/-! ## Books whose editor is misprinted -/

/-- The books that an author has edited, which lead back to their editor. -/
def editedBooks : RelationDefinition where
  name := "EDITED"
  target := some "BOOK"
  kind := some .oneToMany
  reverse := some "EDITOR"
  mapping := some (.direct [("id", "editor_id")])

/-- The editor of a book, found by a field that books do not have. -/
def misprintedEditor : RelationDefinition where
  name := "EDITOR"
  target := some "AUTHOR"
  kind := some .manyToOne
  mapping := some (.direct [("editor", "id")])

/-- Authors, books and both relationships. -/
def misprint : Schema :=
  .ofLists [Schema.author, Schema.book] [("AUTHOR", editedBooks), ("BOOK", misprintedEditor)]

/-- The books that an author has edited resolve, but are not planned: their declared way back fails. -/
theorem make_fallible_misprint : ∃ t s e, s.Reachable ∧ t.Grown ∧ t.Resolved s ∧
    answer (make t {}) s = .error e ∧ e.code = .invalidMapping ∧ t.Strays s e := by
  have hfacts : ((pair? misprint Schema.author "EDITED").any fun (t, s) => decide
      ((∀ c ∈ t.commands, ∀ field ∈ c.named, c.entity.hasField field = true) ∧
        (match answer (make t {}) s with
          | .ok _ => none
          | .error e => some e.code) = some .invalidMapping)) = true := by
    decide +kernel
  obtain ⟨⟨t, s⟩, hpair, hfacts⟩ := (Option.any_eq_true _ _).1 hfacts
  obtain ⟨hfields, hcode⟩ := of_decide_eq_true hfacts
  obtain ⟨hs, hasked⟩ := pair?_some (.ofLists _ _) (by decide +kernel) hpair
  have hfallible := make_fallible hs hasked.grown hasked.relations {}
  have hnamed : ∀ e, ¬ t.Misnames e := by
    rintro e ⟨c, hc, field, hfield, hlacks, -⟩
    rw [hfields c hc field hfield] at hlacks
    cases hlacks
  cases hmake : answer (make t {}) s with
  | ok plan =>
    rw [hmake] at hcode
    cases hcode
  | error e =>
    rw [hmake] at hcode
    exact ⟨t, s, e, hs, hasked.grown, hasked.relations, hmake, Option.some.inj hcode,
      hfallible.astray hnamed e hmake⟩

end Plan

end GraphLoad
