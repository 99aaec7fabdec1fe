/-
What a statement selects is what a row is read back as. A chain selects the key of its source, each field
once, and of each of its sets the fields that its projection chooses, in this order and nothing else.
Where no name of an entity holds a colon, a label tells its alias and its field apart, so that no field of
one set is taken for one of another, none is skipped, and the cells of an alias are its own fields.
-/
import GraphLoad.Proofs.Command.Names
import GraphLoad.Proofs.OrderedMap
import GraphLoad.Proofs.Plan.Labels
import GraphLoad.Proofs.Plan.Placement
import GraphLoad.Proofs.Repetition

namespace GraphLoad

open Sql

/-! ## Labels and the cells under them -/

namespace Sql

theorem afterStart_eq_some {start cs rest : List Char} :
    afterStart start cs = some rest ↔ cs = start ++ rest := by
  induction start generalizing cs with
  | nil => simp [afterStart]
  | cons s start ih =>
    cases cs with
    | nil => simp [afterStart]
    | cons c cs =>
      by_cases h : s = c
      · subst h
        simp [afterStart, ih]
      · simp [afterStart, h, Ne.symm h]

theorem toList_label (a field : String) : (label a field).toList = a.toList ++ ':' :: field.toList := by
  simp [label, String.toList_append]

/-- A label is read for an alias exactly as the field that it was made of with this alias. -/
theorem labelledField?_eq_some {a text field : String} :
    labelledField? a text = some field ↔ text = label a field := by
  unfold labelledField?
  rw [Option.map_eq_some_iff]
  constructor
  · rintro ⟨rest, hrest, rfl⟩
    rw [afterStart_eq_some, List.append_assoc, List.singleton_append] at hrest
    rw [← String.toList_inj, toList_label, hrest, String.toList_ofList]
  · rintro rfl
    refine ⟨field.toList, ?_, String.ofList_toList⟩
    rw [afterStart_eq_some, toList_label, List.append_assoc, List.singleton_append]

/-- The first colon of a text ends what has none. -/
theorem colon_splits {a b x y : List Char} (ha : ':' ∉ a) (hb : ':' ∉ b)
    (h : a ++ ':' :: x = b ++ ':' :: y) : a = b ∧ x = y := by
  induction a generalizing b with
  | nil =>
    cases b with
    | nil => exact ⟨rfl, List.tail_eq_of_cons_eq h⟩
    | cons c b => exact (hb (List.mem_cons.2 (.inl (List.head_eq_of_cons_eq h)))).elim
  | cons c a ih =>
    cases b with
    | nil => exact (ha (List.mem_cons.2 (.inl (List.head_eq_of_cons_eq h).symm))).elim
    | cons d b =>
      obtain ⟨rfl, hrest⟩ := List.cons.inj h
      obtain ⟨rfl, hxy⟩ := ih (mt (List.mem_cons_of_mem _) ha) (mt (List.mem_cons_of_mem _) hb) hrest
      exact ⟨rfl, hxy⟩

/-- Labels of aliases without a colon tell the aliases and the fields. -/
theorem label_inj {a b f g : String} (ha : ':' ∉ a.toList) (hb : ':' ∉ b.toList)
    (h : label a f = label b g) : a = b ∧ f = g := by
  have htext := congrArg String.toList h
  rw [toList_label, toList_label] at htext
  obtain ⟨halias, hfield⟩ := colon_splits ha hb htext
  exact ⟨String.toList_inj.1 halias, String.toList_inj.1 hfield⟩

/-- Aliases of one letter more or less are told apart, though the one begins the other; an alias with a
colon is not. -/
example : labelledField? "AUTHOR1" (label "AUTHOR10" "id") = none ∧
    labelledField? "A1" (label "A1:B2" "id") = some "B2:id" := by decide

end Sql

namespace Row

variable {r : Row} {a : String}

/-- Every cell of an alias is the one under the label of its field. -/
theorem mem_cellsOf {field : String} {v : Value} :
    (field, v) ∈ r.cellsOf a ↔ r.value? a field = some v := by
  unfold cellsOf value? get?
  rw [OrderedMap.get?_eq_some_iff, List.mem_filterMap]
  constructor
  · rintro ⟨⟨text, w⟩, hmem, heq⟩
    obtain ⟨f, hf, heq⟩ := Option.map_eq_some_iff.1 heq
    cases heq
    rw [← labelledField?_eq_some.1 hf]
    exact hmem
  · intro hmem
    refine ⟨_, hmem, ?_⟩
    dsimp only
    rw [labelledField?_eq_some.2 rfl, Option.map_some]

/-- The fields of an alias are what the labels of the row are read as. -/
theorem fields_cellsOf : (r.cellsOf a).map Prod.fst = r.cells.keys.filterMap (labelledField? a) := by
  unfold cellsOf OrderedMap.keys
  rw [List.map_filterMap, List.filterMap_map]
  refine List.filterMap_congr fun e _ => ?_
  rw [Option.map_map, Function.comp_apply]
  exact Option.map_id' ..

end Row

/-! ## Selecting in order -/

/-- A statement that selects some labels in their order, each where it stands first. -/
def Sql.Select.Lists (labels : List String) (q : Select) : Prop := q.labels = labels.eraseDups

theorem Sql.Select.Lists.congr {labels : List String} {q q' : Select} (h : q.Lists labels)
    (hcolumns : q'.columns = q.columns) : q'.Lists labels := by
  unfold Lists Select.labels at *
  rw [hcolumns, h]

/-- The label of a field of a set. -/
def labelOf (p : Command × String) : String := label p.1.aliasName p.2

theorem selectField_lists {c : Command} {field : String} {q q' : Select} {labels : List String}
    (h : c.entity.selectField c.aliasName field q = .ok ⟨⟩ q') (hq : q.Lists labels) :
    q'.Lists (labels ++ [labelOf (c, field)]) := by
  unfold Entity.selectField at h
  obtain ⟨x, q₁, hlift, h⟩ := step_bind_ok h
  obtain ⟨-, rfl⟩ := step_lift_ok hlift
  unfold Select.Lists at *
  rw [← step_modify_ok h, Select.labels_addColumn, hq, eraseDups_snoc]
  rfl

theorem selectFields_lists {c : Command} {names : List String} {q q' : Select} {labels : List String}
    (h : c.entity.selectFields c.aliasName names q = .ok ⟨⟩ q') (hq : q.Lists labels) :
    q'.Lists (labels ++ names.map fun field => labelOf (c, field)) := by
  refine forM_builds (P := fun done q₁ =>
    q₁.Lists (labels ++ done.map fun field => labelOf (c, field))) ?_ ?_ h
  · rintro pre field post - q₁ q₂ hlists hfield
    rw [List.map_append, ← List.append_assoc]
    exact selectField_lists hfield hlists
  · rwa [List.map_nil, List.append_nil]

namespace Plan

variable {t : CommandTree} {root : Command} {projections : List (List String)} {kind : JoinKind}
  {q q' : Select} {labels : List String}

theorem startChain_lists (h : startChain t root {} = .ok ⟨⟩ q) :
    q.Lists ((root.parent.bind t.get?).toList.flatMap fun p =>
      p.entity.primaryKey.map fun field => labelOf (p, field)) := by
  unfold startChain at h
  cases ho : root.origin <;> rw [ho] at h
  case none =>
    rw [Command.parent, ho, ← step_set_ok h]
    rfl
  case some o =>
    obtain ⟨⟨p, r⟩, q₁, hlift, h⟩ := step_bind_ok h
    obtain ⟨hsource, rfl⟩ := step_lift_ok hlift
    obtain ⟨o', ho', hp, rfl⟩ := sourceOf_ok hsource
    rw [ho] at ho'
    cases ho'
    obtain ⟨⟨⟩, q₁, hset, h⟩ := step_bind_ok h
    have hq₁ := step_set_ok hset
    subst hq₁
    obtain ⟨⟨⟩, q₂, hfields, hjoin⟩ := step_bind_ok h
    obtain ⟨js, -, rfl⟩ := Relation.join_ok hjoin
    have hparent : (root.parent.bind t.get?).toList = [p] := by
      rw [Command.parent, ho, Option.map_some, Option.bind_some, hp, Option.toList_some]
    rw [hparent, List.flatMap_singleton]
    have hnothing : (Select.ofTable (.named p.entity.table) p.aliasName).Lists [] := rfl
    exact (selectFields_lists hfields hnothing).congr rfl

/-- Every set of a chain adds the fields of its projection behind the others. -/
theorem addCommand_lists {c : Command} (h : addCommand t root.id projections kind c q = .ok ⟨⟩ q')
    (hq : q.Lists labels) : q'.Lists (labels ++ (fieldsOf projections c).map labelOf) := by
  obtain ⟨q₁, q₂, hjoined, hfields, hpredicates⟩ := addCommand_steps h
  have hcolumns : q₁.columns = q.columns := by
    rcases hjoined with ⟨-, rfl⟩ | ⟨-, o, p, -, -, hjoin⟩
    · rfl
    · obtain ⟨js, -, rfl⟩ := Relation.join_ok hjoin
      rfl
  rw [fieldsOf, List.map_map]
  exact (selectFields_lists hfields (hq.congr hcolumns)).congr (addPredicates_keeps hpredicates).2.2

theorem writeChain_lists {commands : List Command}
    (h : writeChain t projections kind root commands {} = .ok ⟨⟩ q) :
    q.Lists (((root.parent.bind t.get?).toList.flatMap fun p =>
      p.entity.primaryKey.map fun field => labelOf (p, field)) ++
        (commands.flatMap (fieldsOf projections)).map labelOf) := by
  unfold writeChain at h
  obtain ⟨⟨⟩, q₀, hbegin, h⟩ := step_bind_ok h
  obtain ⟨⟨⟩, q₁, hcommands, h⟩ := step_bind_ok h
  obtain ⟨⟨⟩, q₂, horders, hpage⟩ := step_bind_ok h
  have hsets := forM_builds (P := fun pre q₁ => q₁.Lists (((root.parent.bind t.get?).toList.flatMap
      fun p => p.entity.primaryKey.map fun field => labelOf (p, field)) ++
        (pre.flatMap (fieldsOf projections)).map labelOf))
    (fun pre c post _ q₃ q₄ hq hstep => by
      rw [List.flatMap_append, List.map_append, ← List.append_assoc, List.flatMap_singleton]
      exact addCommand_lists hstep hq)
    (by rw [List.flatMap_nil, List.map_nil, List.append_nil]; exact startChain_lists hbegin) hcommands
  refine hsets.congr ?_
  rw [← step_modify_ok hpage]
  exact (addOrders_ok horders).2

/-! ## The selection of a chain -/

/-- What a chain selects: of its source the fields of the key, each once, and of each of its sets, in their
order, the fields of its projection. -/
def selection (plan : Plan) (chain : Chain) : List (Command × String) :=
  ((chain.source.bind plan.tree.get?).toList.flatMap fun p =>
      p.entity.primaryKey.eraseDups.map fun field => (p, field)) ++
    (chain.commands.filterMap plan.tree.get?).flatMap (fieldsOf plan.projections)

variable {P : Schema → Prop} {cfg : Settings} {plan : Plan} {chain : Chain}

/-- Fields of sets whose labels, of aliases without a colon, tell them apart. -/
theorem labelOf_inj (ht : t.Grown) (hcolon : ∀ {i c}, t.get? i = some c → ':' ∉ c.aliasName.toList)
    {p p' : Command × String} {i j : Nat} (hp : t.get? i = some p.1) (hp' : t.get? j = some p'.1)
    (h : labelOf p = labelOf p') : p = p' := by
  obtain ⟨halias, hfield⟩ := label_inj (hcolon hp) (hcolon hp') h
  cases ht.alias_inj hp hp' halias
  rw [hp] at hp'
  exact Prod.ext (Option.some.inj hp') hfield

/-- The fields that a set contributes are distinct. -/
theorem Made.nodup_fieldsOf (ht : t.Ordered) (hmade : Made P t cfg plan) {i : Nat} {c : Command}
    (hc : t.get? i = some c) : (fieldsOf plan.projections c).Nodup := by
  obtain ⟨fields, hfields, hresolve⟩ := hmade.projected hc
  unfold fieldsOf
  rw [ht.ids hc, hfields, Option.getD_some]
  refine List.Nodup.map (fun f g h => (Prod.mk.inj h).2) ?_
  unfold Projection.resolve at hresolve
  split at hresolve
  · cases hresolve
  · cases hresolve
    exact c.entity.columns.nodup.filter _

/-- The sets of a chain are distinct. -/
theorem Made.nodup_sets (ht : t.Ordered) (hmade : Made P t cfg plan) (hchain : chain ∈ plan.chains) :
    (chain.commands.filterMap t.get?).Nodup := by
  have hnodup := (List.nodup_flatMap.1 (hmade.nodup_commands ht)).1 chain hchain
  exact hnodup.filterMap fun i j c hi hj => (ht.ids hi).symm.trans (ht.ids hj)

/-- The fields that the sets of a chain contribute are distinct. -/
theorem Made.nodup_fields (ht : t.Ordered) (hmade : Made P t cfg plan) (hchain : chain ∈ plan.chains) :
    ((chain.commands.filterMap t.get?).flatMap (fieldsOf plan.projections)).Nodup := by
  refine List.nodup_flatMap.2 ⟨fun c hc => ?_, ?_⟩
  · obtain ⟨i, -, hget⟩ := List.mem_filterMap.1 hc
    exact hmade.nodup_fieldsOf ht hget
  · refine (hmade.nodup_sets ht hchain).imp fun hne p hp hp' => hne ?_
    obtain ⟨f, -, rfl⟩ := List.mem_map.1 hp
    obtain ⟨g, -, heq⟩ := List.mem_map.1 hp'
    exact (Prod.mk.inj heq).1.symm

/-- Fields of a chain belong to its source or to one of its commands. -/
theorem mem_selection {p : Command × String} (hp : p ∈ plan.selection chain) :
    (∃ s, chain.source = some s ∧ plan.tree.get? s = some p.1) ∨
      ∃ i ∈ chain.commands, plan.tree.get? i = some p.1 := by
  rcases List.mem_append.1 hp with hp | hp
  · obtain ⟨c, hc, hp⟩ := List.mem_flatMap.1 hp
    obtain ⟨f, -, rfl⟩ := List.mem_map.1 hp
    obtain ⟨s, hs, hget⟩ := Option.bind_eq_some_iff.1 (Option.mem_toList.1 hc)
    exact .inl ⟨s, hs, hget⟩
  · obtain ⟨c, hc, hp⟩ := List.mem_flatMap.1 hp
    obtain ⟨f, -, rfl⟩ := List.mem_map.1 hp
    obtain ⟨i, hi, hget⟩ := List.mem_filterMap.1 hc
    exact .inr ⟨i, hi, hget⟩

/-- The labels of a chain are those of its selection: no label of a set is one of the source or of another
set, and of the key of the source each label is taken once. -/
theorem Made.labels_eq (ht : t.Grown) (hmade : Made P t cfg plan) (hchain : chain ∈ plan.chains)
    (hcolon : ∀ {i c}, t.get? i = some c → ':' ∉ c.aliasName.toList) :
    chain.query.labels = (plan.selection chain).map labelOf := by
  have hordered := ht.ordered
  obtain ⟨shape, hshape, hcompile⟩ := forall₂_mem_right hmade.chains chain hchain
  obtain ⟨rfl, root, hroot, hwrite⟩ := compile_ok hcompile
  have hlists := writeChain_lists hwrite
  rw [← CommandTree.source_eq hshape hroot] at hlists
  have hsets : (((chain.commands.filterMap t.get?).flatMap (fieldsOf plan.projections)).map
      labelOf).Nodup := by
    refine List.Nodup.map_on (fun p hp p' hp' heq => ?_) (hmade.nodup_fields hordered hchain)
    obtain ⟨c, hc, hp⟩ := List.mem_flatMap.1 hp
    obtain ⟨f, -, rfl⟩ := List.mem_map.1 hp
    obtain ⟨c', hc', hp'⟩ := List.mem_flatMap.1 hp'
    obtain ⟨f', -, rfl⟩ := List.mem_map.1 hp'
    obtain ⟨i, -, hi⟩ := List.mem_filterMap.1 hc
    obtain ⟨j, -, hj⟩ := List.mem_filterMap.1 hc'
    exact labelOf_inj ht hcolon hi hj heq
  unfold Select.Lists at hlists
  rw [hlists, eraseDups_append_of_new hsets ?new, selection, hmade.tree, List.map_append]
  case new =>
    intro text htext hkey
    obtain ⟨p, hp, rfl⟩ := List.mem_map.1 htext
    obtain ⟨c, hc, hp⟩ := List.mem_flatMap.1 hp
    obtain ⟨f, -, rfl⟩ := List.mem_map.1 hp
    obtain ⟨i, hi, hget⟩ := List.mem_filterMap.1 hc
    obtain ⟨d, hd, hkey⟩ := List.mem_flatMap.1 hkey
    obtain ⟨g, -, heq⟩ := List.mem_map.1 hkey
    obtain ⟨s, hs, hsource⟩ := Option.bind_eq_some_iff.1 (Option.mem_toList.1 hd)
    have hsame : d = c := (Prod.mk.inj (labelOf_inj ht hcolon hsource hget heq)).1
    have hlt := hmade.source_lt hordered hchain hs hi
    rw [← hordered.ids hget, ← hordered.ids hsource, hsame] at hlt
    exact Nat.lt_irrefl _ hlt
  congr 1
  cases chain.source.bind t.get? with
  | none => rfl
  | some p =>
    rw [Option.toList_some, List.flatMap_singleton, List.flatMap_singleton, List.map_map]
    exact eraseDups_map fun f _ g _ heq => by
      have hfield := labelledField?_label p.aliasName f
      rw [show label p.aliasName f = label p.aliasName g from heq, labelledField?_label] at hfield
      exact (Option.some.inj hfield).symm

/-- Every label of a chain stands for the column of its field under its alias. -/
theorem Made.columns_eq (ht : t.Grown) (hmade : Made P t cfg plan) (hchain : chain ∈ plan.chains)
    (hcolon : ∀ {i c}, t.get? i = some c → ':' ∉ c.aliasName.toList) :
    List.Forall₂ (fun p column => p.1.IsColumn p.2 column) (plan.selection chain)
      chain.query.columns := by
  have hlabels : List.Forall₂ (fun p column => labelOf p = column.label) (plan.selection chain)
      chain.query.columns := by
    have hsame : List.Forall₂ (· = ·) ((plan.selection chain).map labelOf)
        (chain.query.columns.map (·.label)) := by
      rw [List.forall₂_eq_eq_eq]
      exact (hmade.labels_eq ht hchain hcolon).symm
    rwa [List.forall₂_map_left_iff, List.forall₂_map_right_iff] at hsame
  refine List.forall₂_iff_zip.2 ⟨hlabels.length_eq, fun {p column} hmem => ?_⟩
  obtain ⟨hp, hcolumn⟩ := List.of_mem_zip hmem
  obtain ⟨p', hfind, hiscolumn⟩ := (hmade.selects hchain).listed column hcolumn
  have hlabel : labelOf p' = labelOf p := by
    have hfound := List.find?_some hfind
    rw [(List.forall₂_iff_zip.1 hlabels).2 hmem]
    exact beq_iff_eq.1 hfound
  have hp' : p' ∈ plan.selection chain := by
    have hmem := List.mem_of_find?_eq_some hfind
    unfold selection
    rw [hmade.tree]
    simpa only [List.mem_append, List.mem_flatMap, List.mem_map, List.mem_eraseDups] using hmem
  have hget : ∀ {p}, p ∈ plan.selection chain → ∃ i, t.get? i = some p.1 := by
    intro p hp
    rw [← hmade.tree]
    rcases mem_selection hp with ⟨s, -, hs⟩ | ⟨i, -, hi⟩
    · exact ⟨s, hs⟩
    · exact ⟨i, hi⟩
  obtain ⟨i, hi⟩ := hget hp
  obtain ⟨j, hj⟩ := hget hp'
  rwa [← labelOf_inj ht hcolon hj hi hlabel]

/-- The fields that a chain selects under an alias, in their order. -/
def fieldsUnder (plan : Plan) (chain : Chain) (aliasName : String) : List String :=
  ((plan.selection chain).filter fun p => p.1.aliasName == aliasName).map Prod.snd

/-- Reading the labels of a chain for an alias without a colon gives back the fields selected under it. -/
theorem Made.labels_read (ht : t.Grown) (hmade : Made P t cfg plan) (hchain : chain ∈ plan.chains)
    (hcolon : ∀ {i c}, t.get? i = some c → ':' ∉ c.aliasName.toList) {a : String}
    (ha : ':' ∉ a.toList) :
    chain.query.labels.filterMap (labelledField? a) = plan.fieldsUnder chain a := by
  rw [hmade.labels_eq ht hchain hcolon, List.filterMap_map, fieldsUnder, ← List.filterMap_eq_map,
    List.filterMap_filter]
  refine List.filterMap_congr fun p hp => ?_
  have hp : ':' ∉ p.1.aliasName.toList := by
    rcases mem_selection hp with ⟨s, -, hs⟩ | ⟨i, -, hi⟩
    · exact hcolon (hmade.tree ▸ hs)
    · exact hcolon (hmade.tree ▸ hi)
  by_cases h : p.1.aliasName = a
  · subst h
    simp [labelOf, labelledField?_label]
  · have hnone : labelledField? a (labelOf p) = none := by
      refine Option.eq_none_iff_forall_ne_some.2 fun f hf => h ?_
      exact (label_inj hp ha (labelledField?_eq_some.1 hf)).1
    simp [hnone, h]

/-- A chain whose labels are its selection, in order, and whose rows are read back as selected: under every
alias without a colon a row with these labels has the fields selected under it and no others, each with the
value under its own label, and in the order of the labels if it has them in order. -/
structure ReadsBack (plan : Plan) (chain : Chain) : Prop where
  source : ∀ i, chain.source = some i → ∃ p, plan.tree.get? i = some p
  resolved : ∀ i ∈ chain.commands, ∃ c fields, plan.tree.get? i = some c ∧ c.id = i ∧
    plan.projections[i]? = some fields ∧ c.modifiers.projection.resolve c.entity = .ok fields
  columns : List.Forall₂ (fun p column => p.1.IsColumn p.2 column) (plan.selection chain)
    chain.query.columns
  labels : ∀ d, (chain.query.build d).labels = (plan.selection chain).map labelOf
  distinct : ∀ d, (chain.query.build d).labels.Nodup
  cells : ∀ (d : Dialect) (r : Row),
    (∀ text, text ∈ r.cells.keys ↔ text ∈ (chain.query.build d).labels) →
    ∀ a, ':' ∉ a.toList → ((r.cellsOf a).map Prod.fst).Perm (plan.fieldsUnder chain a) ∧
      ∀ e ∈ r.cellsOf a, r.value? a e.1 = some e.2
  ordered : ∀ (d : Dialect) (r : Row), r.cells.keys = (chain.query.build d).labels →
    ∀ a, ':' ∉ a.toList → (r.cellsOf a).map Prod.fst = plan.fieldsUnder chain a

/-- Where no entity of a plan has a colon in its name, selecting and reading back are inverse in every
chain. -/
theorem select_reads_back {s s' : Schema} (ht : t.Grown) (hmake : make t cfg s = .ok plan s')
    (hnames : ∀ i c, t.get? i = some c → ':' ∉ c.entity.name.toList) :
    ∀ chain ∈ plan.chains, plan.ReadsBack chain := by
  intro chain hchain
  have hmade := made_of_make hmake
  have hordered := ht.ordered
  have hcolon : ∀ {i c}, t.get? i = some c → ':' ∉ c.aliasName.toList := fun {i c} hc =>
    (ht.isAlias hc).colonless (hnames i c hc)
  have hshape := hmade.shape_mem hchain
  have hcommands := (CommandTree.partition_chainsFrom hordered).commands _ hshape
  have hlabels := hmade.labels_eq ht hchain hcolon
  have hcolumns := hmade.columns_eq ht hchain hcolon
  have hnodup : chain.query.labels.Nodup := by
    obtain ⟨shape, hshape, hcompile⟩ := forall₂_mem_right hmade.chains chain hchain
    obtain ⟨rfl, root, hroot, hwrite⟩ := compile_ok hcompile
    rw [show chain.query.labels = _ from writeChain_lists hwrite]
    exact nodup_eraseDups _
  have hvalue : ∀ (r : Row) a, ∀ e ∈ r.cellsOf a, r.value? a e.1 = some e.2 := fun r a e he =>
    Row.mem_cellsOf.1 he
  constructor
  case source =>
    intro i hi
    obtain ⟨root, hroot⟩ := CommandTree.get?_of_lt
      (hcommands _ (CommandTree.root_mem_commands hshape))
    have hlt := hmade.source_lt hordered hchain hi (CommandTree.root_mem_commands hshape)
    rw [hmade.tree]
    exact CommandTree.get?_of_lt (Nat.lt_trans hlt (CommandTree.get?_lt hroot))
  case resolved =>
    intro i hi
    obtain ⟨c, hc⟩ := CommandTree.get?_of_lt (hcommands i hi)
    obtain ⟨fields, hfields, hresolve⟩ := hmade.projected hc
    exact ⟨c, fields, hmade.tree ▸ hc, hordered.ids hc, hfields, hresolve⟩
  case columns => exact hcolumns
  case labels => exact fun _ => hlabels
  case distinct => exact fun _ => hnodup
  case cells =>
    intro d r hr a ha
    refine ⟨?_, hvalue r a⟩
    rw [Row.fields_cellsOf, ← hmade.labels_read ht hchain hcolon ha]
    exact ((List.perm_ext_iff_of_nodup r.cells.nodup hnodup).2 hr).filterMap _
  case ordered =>
    intro d r hr a ha
    rw [Row.fields_cellsOf, hr]
    exact hmade.labels_read ht hchain hcolon ha

/-- A chain of three sets below a source, and chains of their own. -/
theorem select_reads_back_shelf : shelf.Grown ∧
    (∀ i c, shelf.get? i = some c → ':' ∉ c.entity.name.toList) ∧
    ∃ plan s', make shelf {} { catalog := .ofList [author, book] } = .ok plan s' ∧
      (plan.chains.map fun chain => (plan.selection chain).map labelOf) =
        [["AUTHOR1:id", "AUTHOR1:name"],
          ["AUTHOR1:id", "BOOK2:id", "BOOK2:author_id", "AUTHOR3:id", "AUTHOR3:name", "BOOK4:id",
            "BOOK4:author_id"],
          ["BOOK4:id", "AUTHOR6:id", "AUTHOR6:name"], ["BOOK2:id", "AUTHOR5:id", "AUTHOR5:name"]] ∧
      ∀ chain ∈ plan.chains, plan.ReadsBack chain := by
  have hnames : ∀ i c, shelf.get? i = some c → ':' ∉ c.entity.name.toList := by
    have hall : ∀ c ∈ shelf.commands, ':' ∉ c.entity.name.toList := by decide +kernel
    exact fun i c hc => hall c (List.mem_of_getElem? hc)
  have hmade : ((made? shelf {} { catalog := .ofList [author, book] }).any fun plan =>
      (plan.chains.map fun chain => (plan.selection chain).map labelOf) ==
        [["AUTHOR1:id", "AUTHOR1:name"],
          ["AUTHOR1:id", "BOOK2:id", "BOOK2:author_id", "AUTHOR3:id", "AUTHOR3:name", "BOOK4:id",
            "BOOK4:author_id"],
          ["BOOK4:id", "AUTHOR6:id", "AUTHOR6:name"], ["BOOK2:id", "AUTHOR5:id", "AUTHOR5:name"]]) = true := by decide +kernel
  obtain ⟨plan, hplan, hlabels⟩ := (Option.any_eq_true _ _).1 hmade
  obtain ⟨s', hmake⟩ := made?_some hplan
  exact ⟨grown_shelf, hnames, plan, s', hmake, eq_of_beq hlabels,
    select_reads_back grown_shelf hmake hnames⟩

end Plan

end GraphLoad
