/-
Command trees as they come about: from one command, by adding sets and by changing what is asked of
them. Shown here: in every such tree commands are numbered by their places, every command but the
first has an earlier parent that holds the source of its relationship, and the children of a
command are exactly the commands that have it as their parent, each listed once.
-/
import GraphLoad.Plan.Partition
import Mathlib.Data.List.Nodup

namespace GraphLoad

namespace CommandTree

/-- The trees that sessions build: started at an entity, grown by relationships, and with anything
asked of any set at any time. -/
inductive Grown : CommandTree → Prop
  | start (session : Nat) (entity : Entity) : Grown (.start session entity)
  | add {t t' : CommandTree} {parent id : Nat} {relation : Relation} :
      Grown t → t.add parent relation = .ok (t', id) → Grown t'
  | modify {t : CommandTree} (id : Nat) (f : Modifiers → Modifiers) :
      Grown t → Grown (t.modify id f)

/-- The shape of a grown tree. -/
structure Ordered (t : CommandTree) : Prop where
  ids : ∀ {i c}, t.get? i = some c → c.id = i
  first : ∃ c, t.get? 0 = some c ∧ c.origin = none
  parents : ∀ {i c}, t.get? i = some c → 0 < i → ∃ p, c.parent = some p ∧ p < i
  sources : ∀ {i c o}, t.get? i = some c → c.origin = some o →
    c.entity = o.relation.target ∧
      ∃ p, t.get? o.parent = some p ∧ p.entity.name = o.relation.source.name
  children : ∀ {i c}, t.get? i = some c → ∀ j,
    j ∈ c.children ↔ ∃ d, t.get? j = some d ∧ d.parent = some i
  childrenNodup : ∀ {i c}, t.get? i = some c → c.children.Nodup

/-- The first command is not loaded from another one. -/
theorem Ordered.origin_first {t : CommandTree} (ht : t.Ordered) {c : Command}
    (hc : t.get? 0 = some c) : c.origin = none := by
  obtain ⟨d, hd, hnone⟩ := ht.first
  rw [hc] at hd
  cases hd
  exact hnone

/-- Only the first command has no parent. -/
theorem Ordered.eq_zero {t : CommandTree} (ht : t.Ordered) {i : Nat} {c : Command}
    (hc : t.get? i = some c) (hp : c.parent = none) : i = 0 := by
  rcases Nat.eq_zero_or_pos i with hzero | hpos
  · exact hzero
  · obtain ⟨p, hp', -⟩ := ht.parents hc hpos
    rw [hp] at hp'
    cases hp'

theorem Ordered.parent_lt {t : CommandTree} (ht : t.Ordered) {i p : Nat} {c : Command}
    (hc : t.get? i = some c) (hp : c.parent = some p) : p < i := by
  have hpos : 0 < i := by
    refine Nat.pos_of_ne_zero ?_
    rintro rfl
    rw [Command.parent, ht.origin_first hc] at hp
    cases hp
  obtain ⟨q, hq, hlt⟩ := ht.parents hc hpos
  rw [hp] at hq
  cases hq
  exact hlt

/-! ## Commands of a larger tree -/

theorem get?_lt {t : CommandTree} {i : Nat} {c : Command} (h : t.get? i = some c) : i < t.size :=
  (List.getElem?_eq_some_iff.1 h).1

theorem get?_of_lt {t : CommandTree} {i : Nat} (h : i < t.size) : ∃ c, t.get? i = some c :=
  ⟨t.commands[i], List.getElem?_eq_getElem h⟩

/-- The new command of a tree that grows. -/
def newest (t : CommandTree) (entity : Entity) (origin : Option Origin) : Command :=
  { id := t.size, aliasName := freshAlias t.aliases (entity.name ++ toString (t.size + 1)),
    entity, origin }

/-- A command after its tree has grown by a set loaded from `origin`. -/
def grownBy (id : Nat) (origin : Option Origin) (i : Nat) (c : Command) : Command :=
  if (origin.map Origin.parent) = some i then c.addChild id else c

theorem get?_push (t : CommandTree) (entity : Entity) (origin : Option Origin) (i : Nat) :
    (t.push entity origin).get? i =
      if i = t.size then some (t.newest entity origin)
      else (t.get? i).map (grownBy t.size origin i) := by
  have hpush : (t.push entity origin).get? i =
      (t.commands.mapIdx (grownBy t.size origin) ++ [t.newest entity origin])[i]? := by
    cases origin with
    | none =>
      have hold : t.commands.mapIdx (grownBy t.size none) = t.commands := by
        apply List.ext_getElem? fun k => ?_
        rw [List.getElem?_mapIdx]
        cases t.commands[k]? <;> simp [grownBy]
      simp only [push, get?, hold]
      rfl
    | some o =>
      have hold : t.commands.modify o.parent (·.addChild t.size) =
          t.commands.mapIdx (grownBy t.size (some o)) := by
        apply List.ext_getElem? fun k => ?_
        rw [List.getElem?_modify, List.getElem?_mapIdx]
        cases t.commands[k]? <;> simp [grownBy]
      simp only [push, get?, hold]
      rfl
  rw [hpush]
  rcases Nat.lt_trichotomy i t.size with h | h | h
  · rw [if_neg (by omega), List.getElem?_append_left (by simpa [size] using h), List.getElem?_mapIdx]
    rfl
  · rw [if_pos h, List.getElem?_append_right (by simp [h, size])]
    simp [h, size]
  · rw [if_neg (by omega), List.getElem?_eq_none (by simp [size] at h ⊢; omega)]
    rw [get?, List.getElem?_eq_none (by simp [size] at h; omega)]
    rfl

theorem get?_modify (t : CommandTree) (id : Nat) (f : Modifiers → Modifiers) (i : Nat) :
    (t.modify id f).get? i =
      (t.get? i).map fun c => if id = i then { c with modifiers := f c.modifiers } else c := by
  simp only [modify, get?, List.getElem?_modify]
  rfl

/-- What does not depend on the children of a command stays when the tree grows. -/
theorem map_push {α : Type} {g : Command → α} (hg : ∀ c child, g (c.addChild child) = g c)
    (t : CommandTree) (entity : Entity) (origin : Option Origin) :
    (t.push entity origin).commands.map g = t.commands.map g ++ [g (t.newest entity origin)] := by
  have hgrown : ∀ i c, g (grownBy t.size origin i c) = g c := by
    intro i c
    unfold grownBy
    split
    · exact hg c t.size
    · rfl
  apply List.ext_getElem? fun i => ?_
  have hget : ((t.push entity origin).commands.map g)[i]? =
      ((t.push entity origin).get? i).map g := List.getElem?_map
  rw [hget, get?_push, List.getElem?_append, List.length_map, show t.commands.length = t.size from rfl]
  rcases Nat.lt_trichotomy i t.size with h | h | h
  · rw [if_neg (Nat.ne_of_lt h), if_pos h, List.getElem?_map, Option.map_map]
    exact congrArg (Option.map · _) (funext fun c => hgrown i c)
  · rw [if_pos h, h, if_neg (Nat.lt_irrefl _), Nat.sub_self]
    rfl
  · rw [if_neg (Nat.ne_of_gt h), if_neg (Nat.not_lt_of_gt h), get?,
      List.getElem?_eq_none (Nat.le_of_lt h), List.getElem?_eq_none]
    · rfl
    · exact Nat.le_sub_of_add_le (by rw [Nat.add_comm]; exact h)

/-- What does not depend on the modifiers of a command stays when they change. -/
theorem map_modify {α : Type} {g : Command → α} (hg : ∀ (c : Command) m, g { c with modifiers := m } = g c)
    (t : CommandTree) (id : Nat) (f : Modifiers → Modifiers) :
    (t.modify id f).commands.map g = t.commands.map g := by
  apply List.ext_getElem? fun i => ?_
  have hget : ((t.modify id f).commands.map g)[i]? = ((t.modify id f).get? i).map g := List.getElem?_map
  rw [hget, get?_modify, List.getElem?_map, Option.map_map]
  refine congrArg (Option.map · _) (funext fun c => ?_)
  show g (if id = i then _ else c) = g c
  split
  · exact hg c _
  · rfl

/-- A command of a grown tree is the newest one or stood in the tree before, with the same origin,
entity and number. -/
theorem get?_push_some {t : CommandTree} {entity : Entity} {origin : Option Origin} {i : Nat}
    {c : Command} (h : (t.push entity origin).get? i = some c) :
    (i = t.size ∧ c = t.newest entity origin) ∨
      (i < t.size ∧ ∃ d, t.get? i = some d ∧ c = grownBy t.size origin i d) := by
  rw [get?_push] at h
  split at h
  · cases h; exact .inl ⟨‹_›, rfl⟩
  · obtain ⟨d, hd, rfl⟩ := Option.map_eq_some_iff.1 h
    exact .inr ⟨get?_lt hd, d, hd, rfl⟩

theorem get?_push_of_some {t : CommandTree} {i : Nat} {d : Command} (h : t.get? i = some d)
    (entity : Entity) (origin : Option Origin) :
    (t.push entity origin).get? i = some (grownBy t.size origin i d) := by
  have := get?_lt h
  rw [get?_push, if_neg (by omega), h]
  rfl

@[simp] theorem grownBy_id (id : Nat) (o : Option Origin) (i : Nat) (c : Command) :
    (grownBy id o i c).id = c.id := by unfold grownBy; split <;> rfl

@[simp] theorem grownBy_origin (id : Nat) (o : Option Origin) (i : Nat) (c : Command) :
    (grownBy id o i c).origin = c.origin := by unfold grownBy; split <;> rfl

@[simp] theorem grownBy_entity (id : Nat) (o : Option Origin) (i : Nat) (c : Command) :
    (grownBy id o i c).entity = c.entity := by unfold grownBy; split <;> rfl

@[simp] theorem grownBy_parent (id : Nat) (o : Option Origin) (i : Nat) (c : Command) :
    (grownBy id o i c).parent = c.parent := by simp [Command.parent]

theorem mem_children_grownBy {id : Nat} {o : Option Origin} {i j : Nat} {c : Command} :
    j ∈ (grownBy id o i c).children ↔ j ∈ c.children ∨ (o.map Origin.parent = some i ∧ j = id) := by
  unfold grownBy
  split <;> rename_i h <;> simp [Command.addChild, h]

/-! ## The shape of grown trees -/

theorem ordered_start (session : Nat) (entity : Entity) : (start session entity).Ordered := by
  have hget : ∀ {i c}, (start session entity).get? i = some c →
      i = 0 ∧ c = newest ⟨session, []⟩ entity none := by
    intro i c h
    rcases get?_push_some h with h | ⟨hi, -⟩
    · exact h
    · exact absurd hi (Nat.not_lt_zero _)
  refine ⟨fun h => ?_, ⟨_, rfl, rfl⟩, fun h hi => ?_, fun h ho => ?_, fun h j => ?_, fun h => ?_⟩ <;>
    obtain ⟨rfl, rfl⟩ := hget h
  · rfl
  · exact absurd hi (Nat.lt_irrefl _)
  · cases ho
  · constructor
    · rintro ⟨⟩
    · rintro ⟨d, hd, hp⟩
      obtain ⟨-, rfl⟩ := hget hd
      cases hp
  · exact .nil

theorem ordered_push {t : CommandTree} (ht : t.Ordered) {entity : Entity} {o : Origin}
    {source : Command} (hsource : t.get? o.parent = some source)
    (hname : source.entity.name = o.relation.source.name) (hentity : entity = o.relation.target) :
    (t.push entity (some o)).Ordered := by
  have hlt := get?_lt hsource
  constructor
  case ids =>
    intro i c h
    rcases get?_push_some h with ⟨rfl, rfl⟩ | ⟨-, d, hd, rfl⟩
    · rfl
    · rw [grownBy_id]; exact ht.ids hd
  case first =>
    obtain ⟨c, hc, ho⟩ := ht.first
    exact ⟨_, get?_push_of_some hc .., by rw [grownBy_origin]; exact ho⟩
  case parents =>
    intro i c h hi
    rcases get?_push_some h with ⟨rfl, rfl⟩ | ⟨-, d, hd, rfl⟩
    · exact ⟨o.parent, rfl, hlt⟩
    · rw [grownBy_parent]; exact ht.parents hd hi
  case sources =>
    intro i c p h ho
    rcases get?_push_some h with ⟨rfl, rfl⟩ | ⟨-, d, hd, rfl⟩
    · cases ho
      exact ⟨hentity, _, get?_push_of_some hsource .., by rw [grownBy_entity]; exact hname⟩
    · rw [grownBy_origin] at ho
      obtain ⟨he, q, hq, hn⟩ := ht.sources hd ho
      exact ⟨by rw [grownBy_entity]; exact he, _, get?_push_of_some hq .., by rw [grownBy_entity]; exact hn⟩
  case children =>
    intro i c h j
    rcases get?_push_some h with ⟨rfl, rfl⟩ | ⟨hi, d, hd, rfl⟩
    · -- nothing hangs below the newest command yet: parents come before their children
      refine ⟨fun hj => (List.not_mem_nil hj).elim, ?_⟩
      rintro ⟨e, he, hp⟩
      rcases get?_push_some he with ⟨rfl, rfl⟩ | ⟨hj, e', he', rfl⟩
      · have : o.parent = t.size := Option.some.inj hp
        omega
      · rw [grownBy_parent] at hp
        have hparent := ht.parent_lt he' hp
        omega
    · rw [mem_children_grownBy, ht.children hd j]
      constructor
      · rintro (⟨e, he, hp⟩ | ⟨hp, rfl⟩)
        · exact ⟨_, get?_push_of_some he .., by rw [grownBy_parent]; exact hp⟩
        · exact ⟨t.newest entity (some o), by rw [get?_push, if_pos rfl], hp⟩
      · rintro ⟨e, he, hp⟩
        rcases get?_push_some he with ⟨rfl, rfl⟩ | ⟨-, e', he', rfl⟩
        · exact .inr ⟨hp, rfl⟩
        · exact .inl ⟨e', he', by rw [grownBy_parent] at hp; exact hp⟩
  case childrenNodup =>
    intro i c h
    rcases get?_push_some h with ⟨rfl, rfl⟩ | ⟨hi, d, hd, rfl⟩
    · exact .nil
    · have hnew : t.size ∉ d.children := fun hm => by
        obtain ⟨e, he, -⟩ := (ht.children hd _).1 hm
        exact absurd (get?_lt he) (Nat.lt_irrefl _)
      unfold grownBy
      split
      · refine List.nodup_append.2 ⟨ht.childrenNodup hd, List.nodup_singleton _, fun a ha b hb => ?_⟩
        rw [List.mem_singleton] at hb
        rintro rfl
        exact hnew (hb ▸ ha)
      · exact ht.childrenNodup hd

theorem ordered_modify {t : CommandTree} (ht : t.Ordered) (id : Nat) (f : Modifiers → Modifiers) :
    (t.modify id f).Ordered := by
  -- what is asked of a set touches neither its place in the tree nor its entity
  have hback : ∀ {i c}, (t.modify id f).get? i = some c → ∃ d, t.get? i = some d ∧ c.id = d.id ∧
      c.origin = d.origin ∧ c.entity = d.entity ∧ c.children = d.children := by
    intro i c h
    rw [get?_modify] at h
    obtain ⟨d, hd, rfl⟩ := Option.map_eq_some_iff.1 h
    exact ⟨d, hd, by split <;> simp⟩
  have hforth : ∀ {i d}, t.get? i = some d → ∃ c, (t.modify id f).get? i = some c ∧
      c.origin = d.origin ∧ c.entity = d.entity := by
    intro i d h
    rw [get?_modify, h]
    exact ⟨_, rfl, by split <;> simp⟩
  have hparent : ∀ {c d : Command}, c.origin = d.origin → c.parent = d.parent := by
    intro c d h; rw [Command.parent, Command.parent, h]
  constructor
  case ids =>
    intro i c h
    obtain ⟨d, hd, hid, -⟩ := hback h
    rw [hid]; exact ht.ids hd
  case first =>
    obtain ⟨d, hd, ho⟩ := ht.first
    obtain ⟨c, hc, hco, -⟩ := hforth hd
    exact ⟨c, hc, hco.trans ho⟩
  case parents =>
    intro i c h hi
    obtain ⟨d, hd, -, ho, -⟩ := hback h
    rw [hparent ho]; exact ht.parents hd hi
  case sources =>
    intro i c o h hc
    obtain ⟨d, hd, -, ho, he, -⟩ := hback h
    obtain ⟨hent, p, hp, hn⟩ := ht.sources hd (ho ▸ hc)
    obtain ⟨q, hq, -, hqe⟩ := hforth hp
    exact ⟨he.trans hent, q, hq, by rw [hqe]; exact hn⟩
  case children =>
    intro i c h j
    obtain ⟨d, hd, -, -, -, hch⟩ := hback h
    rw [hch, ht.children hd j]
    constructor
    · rintro ⟨e, he, hp⟩
      obtain ⟨e', he', ho, -⟩ := hforth he
      exact ⟨e', he', (hparent ho).trans hp⟩
    · rintro ⟨e, he, hp⟩
      obtain ⟨e', he', -, ho, -⟩ := hback he
      exact ⟨e', he', (hparent ho).symm.trans hp⟩
  case childrenNodup =>
    intro i c h
    obtain ⟨d, hd, -, -, -, hch⟩ := hback h
    rw [hch]; exact ht.childrenNodup hd

theorem add_ok {t t' : CommandTree} {parent id : Nat} {relation : Relation}
    (h : t.add parent relation = .ok (t', id)) :
    ∃ source, t.get? parent = some source ∧ source.entity.name = relation.source.name ∧
      t' = t.push relation.target (some ⟨parent, relation⟩) ∧ id = t.size := by
  unfold add at h
  split at h
  · cases h
  · split at h
    · cases h; exact ⟨_, ‹_›, ‹_›, rfl, rfl⟩
    · cases h

theorem Grown.ordered {t : CommandTree} (h : t.Grown) : t.Ordered := by
  induction h with
  | start session entity => exact ordered_start session entity
  | add _ hadd ih =>
    obtain ⟨source, hs, hn, rfl, -⟩ := add_ok hadd
    exact ordered_push ih hs hn rfl
  | modify id f _ ih => exact ordered_modify ih id f

end CommandTree

end GraphLoad
