/-
What the commands of a session say of each other. A command names its parent and the parent lists its
children, a relationship carries the entities that its ends carry too, and the session points at one of
its commands by a number: all of it is written twice, by calls of a dozen kinds. Shown here: however
sessions are used, and whatever is registered on their schema in between, both agree.

A call that succeeds does one of four things to a session (`Effect`); what it leaves in order follows
from that, and no later proof opens the calls again.
-/
import GraphLoad.Proofs.Session.Isolation

namespace GraphLoad

open List

/-! ## What a call does -/

/-- What a change makes of the modifiers of the active set, unless it is written as none can be. -/
def Session.Change.effect : Session.Change → Except LoadError (Modifiers → Modifiers)
  | .orderBy field direction => .ok fun m => { m with order := m.order ++ [⟨field, direction⟩] }
  | .orderByClause clause =>
    (OrderTerm.parseList clause).map fun terms m => { m with order := terms }
  | .select fields => .ok fun m => { m with projection := .only fields }
  | .selectExcept fields => .ok fun m => { m with projection := .except fields }
  | .limit n => .ok fun m => { m with page := m.page.withLimit n }
  | .offset n => .ok fun m => { m with page := m.page.withOffset n }
  | .policy p => .ok fun m => { m with policy := p }
  | .policyNamed name => (ChainPolicy.parse name).map fun p m => { m with policy := p }
  | .restrict field operator value =>
    .ok fun m => { m with predicates := m.predicates ++ [⟨field, operator, value⟩] }
  | .restrictBy field operator value => (Sql.Operator.parse operator).map fun operator m =>
    { m with predicates := m.predicates ++ [⟨field, operator, value⟩] }

theorem Session.change_effect (q : Session) (c : Change) : q.change c = c.effect.map q.modify := by
  cases c
  case orderByClause clause =>
    rw [change, orderByClause, Change.effect]
    cases OrderTerm.parseList clause <;> rfl
  case policyNamed name =>
    rw [change, policyNamed, Change.effect]
    cases ChainPolicy.parse name <;> rfl
  case restrictBy field operator value =>
    rw [change, restrictBy, Change.effect]
    cases Sql.Operator.parse operator <;> rfl
  all_goals rfl

/-- What a change asks for: what it makes of the one part of the modifiers that it is about, all other parts
staying as they are. A limit and an offset are each about one side of the window. -/
def Session.Change.Sets (m m' : Modifiers) : Session.Change → Prop
  | .orderBy field direction =>
    m'.order = m.order ++ [⟨field, direction⟩] ∧ m' = { m with order := m'.order }
  | .orderByClause clause =>
    OrderTerm.parseList clause = .ok m'.order ∧ m' = { m with order := m'.order }
  | .select fields => m'.projection = .only fields ∧ m' = { m with projection := m'.projection }
  | .selectExcept fields => m'.projection = .except fields ∧ m' = { m with projection := m'.projection }
  | .limit n =>
    m'.page.limit = some n ∧ m'.page.offset = m.page.offset ∧ m' = { m with page := m'.page }
  | .offset n =>
    m'.page.offset = some n ∧ m'.page.limit = m.page.limit ∧ m' = { m with page := m'.page }
  | .policy p => m'.policy = p ∧ m' = { m with policy := m'.policy }
  | .policyNamed name => ChainPolicy.parse name = .ok m'.policy ∧ m' = { m with policy := m'.policy }
  | .restrict field operator value =>
    m'.predicates = m.predicates ++ [⟨field, operator, value⟩] ∧
      m' = { m with predicates := m'.predicates }
  | .restrictBy field operator value => ∃ o, Sql.Operator.parse operator = .ok o ∧
    m'.predicates = m.predicates ++ [⟨field, o, value⟩] ∧ m' = { m with predicates := m'.predicates }

/-- A change that can be read makes of any modifiers what it asks for. -/
theorem Session.Change.effect_sets {c : Change} {f : Modifiers → Modifiers} (h : c.effect = .ok f)
    (m : Modifiers) : c.Sets m (f m) := by
  cases c <;> rw [effect] at h
  case orderByClause clause =>
    obtain ⟨terms, hterms, rfl⟩ := except_map_ok h
    exact ⟨hterms, rfl⟩
  case policyNamed name =>
    obtain ⟨p, hp, rfl⟩ := except_map_ok h
    exact ⟨hp, rfl⟩
  case restrictBy field operator value =>
    obtain ⟨o, ho, rfl⟩ := except_map_ok h
    exact ⟨o, ho, rfl, rfl⟩
  case limit n =>
    cases h
    exact ⟨m.page.withLimit_limit n, m.page.withLimit_offset n, rfl⟩
  case offset n =>
    cases h
    exact ⟨m.page.withOffset_offset n, m.page.withOffset_limit n, rfl⟩
  all_goals
    cases h
    exact ⟨rfl, rfl⟩

/-- A session with one more set, that of a relationship from the set of a command. -/
def Session.extend (q : Session) (parent : Nat) (r : Relation) : Session :=
  { q with tree := q.tree.push r.target (some ⟨parent, r⟩), active := q.tree.size }

/-- What a call that succeeds makes of a session, and what it replies. -/
inductive Ask.Effect (s : Schema) (id : Nat) : Ask → Option Session → Session → Reply → Prop
  | create {name : String} {entity : Entity} {settings : Settings} {handle : SetRef} :
      s.catalog.find? name = some entity →
      (⟨settings, .start id entity, 0⟩ : Session).activeSet? = some handle →
      Effect s id (.create name settings) none ⟨settings, .start id entity, 0⟩ (.set handle)
  | load {q : Session} {source handle : SetRef} {name : String} {c : Command} {r : Relation} :
      q.owned source = .ok c → s.build c.entity.name name = .ok r →
      (q.extend source.command r).activeSet? = some handle →
      Effect s id (.load source name) (some q) (q.extend source.command r) (.set handle)
  | change {q : Session} {c : Session.Change} {f : Modifiers → Modifiers} :
      c.effect = .ok f → Effect s id (.change c) (some q) (q.modify f) .changed
  | plan {q : Session} {p : Plan} : Effect s id .plan (some q) q (.plan p)

namespace Session

variable {q : Session} {c : Command}

theorem owned_eq_ok {handle : SetRef} (h : q.owned handle = .ok c) :
    q.tree.get? handle.command = some c ∧ handle.session = q.tree.session ∧
      c.aliasName = handle.aliasName := by
  unfold owned at h
  split at h
  · rename_i found hfound
    split at h
    · rename_i hown
      cases h
      exact ⟨hfound, hown⟩
    · cases h
  · cases h

theorem handOut_eq_ok {missing : String} {q' : Session} {reply : Reply}
    (h : q.handOut missing = .ok (q', reply)) :
    q' = q ∧ ∃ handle, q.activeSet? = some handle ∧ reply = .set handle := by
  unfold handOut at h
  split at h
  · rename_i handle hactive
    cases h
    exact ⟨rfl, handle, hactive, rfl⟩
  · cases h

/-- A set that has just been added has a handle. -/
theorem activeSet?_extend (q : Session) (parent : Nat) (r : Relation) :
    (q.extend parent r).activeSet? = some ⟨q.tree.session, q.tree.size,
      (q.tree.newest r.target (some ⟨parent, r⟩)).aliasName⟩ :=
  q.activeSet?_push r.target _

/-- The relationship that is made for a set starts at its entity, so the tree takes it. -/
theorem add_build {s : Schema} {i : Nat} {name : String} {r : Relation} (hc : q.tree.get? i = some c)
    (hr : s.build c.entity.name name = .ok r) :
    q.tree.add i r = .ok (q.tree.push r.target (some ⟨i, r⟩), q.tree.size) := by
  obtain ⟨pairs, hbuilt⟩ := Relation.build_ok hr
  unfold CommandTree.add
  rw [hc]
  exact if_pos (Catalog.name_of_find? hbuilt.source).symm

/-- What loading comes to: a handle of the session, a relationship of its set, and one more set. -/
theorem load_ok {s s' : Schema} (hs : s.Coherent) {source : SetRef} {name : String} {q' : Session}
    (h : q.load source name s = .ok q' s') : ∃ c r, q.owned source = .ok c ∧
      s.build c.entity.name name = .ok r ∧ q' = q.extend source.command r := by
  unfold load at h
  obtain ⟨c, s₁, hlift, h⟩ := step_bind_ok h
  obtain ⟨howned, rfl⟩ := step_lift_ok hlift
  obtain ⟨r, s₂, hrelation, h⟩ := step_bind_ok h
  have hbuild : s.build c.entity.name name = .ok r := by
    rw [← Schema.answer_relation hs]
    exact (answer_of_ok hrelation).1
  obtain ⟨⟨tree, added⟩, s₃, hlift, h⟩ := step_bind_ok h
  obtain ⟨hadd, -⟩ := step_lift_ok hlift
  obtain ⟨rfl, -⟩ := step_pure_ok h
  rw [add_build (owned_eq_ok howned).1 hbuild] at hadd
  cases hadd
  exact ⟨c, r, howned, hbuild, rfl⟩

end Session

/-- A call that succeeds does what its kind does, and nothing else. -/
theorem Ask.act_effect {s s' : Schema} (hs : s.Coherent) {id : Nat} {ask : Ask} {q : Option Session}
    {x : Resolving (Session × Reply)} (hx : ask.act id q = some x) {q' : Session} {reply : Reply}
    (h : x s = .ok (q', reply) s') : ask.Effect s id q q' reply := by
  cases ask with
  | create entity settings =>
    cases q with
    | some q₀ => cases hx
    | none =>
      cases hx
      obtain ⟨s₁, s₂, hget, h⟩ := step_bind_ok h
      obtain ⟨rfl, rfl⟩ := step_get_ok hget
      obtain ⟨q₁, s₃, hcreate, h⟩ := step_bind_ok h
      obtain ⟨hcreate, -⟩ := step_lift_ok hcreate
      obtain ⟨hout, -⟩ := step_lift_ok h
      obtain ⟨rfl, handle, hactive, rfl⟩ := Session.handOut_eq_ok hout
      obtain ⟨e, he, hcreate⟩ := except_bind_ok hcreate
      cases hcreate
      exact .create (Catalog.entity_ok he) hactive
  | load source relationship =>
    cases q with
    | none => cases hx
    | some q₀ =>
      cases hx
      obtain ⟨q₁, s₁, hload, h⟩ := step_bind_ok h
      obtain ⟨hout, -⟩ := step_lift_ok h
      obtain ⟨rfl, handle, hactive, rfl⟩ := Session.handOut_eq_ok hout
      obtain ⟨c, r, howned, hbuild, rfl⟩ := Session.load_ok hs hload
      exact .load howned hbuild hactive
  | change c =>
    cases q with
    | none => cases hx
    | some q₀ =>
      cases hx
      obtain ⟨q₁, s₁, hchange, h⟩ := step_bind_ok h
      obtain ⟨heq, -⟩ := step_pure_ok h
      cases heq
      obtain ⟨hchange, -⟩ := step_lift_ok hchange
      rw [Session.change_effect] at hchange
      obtain ⟨f, hf, rfl⟩ := except_map_ok hchange
      exact .change hf
  | plan =>
    cases q with
    | none => cases hx
    | some q₀ =>
      cases hx
      obtain ⟨p, s₁, -, h⟩ := step_bind_ok h
      obtain ⟨heq, -⟩ := step_pure_ok h
      cases heq
      exact .plan

/-! ## What is said twice -/

/-- A session whose commands agree with each other: they are numbered by their places, each but the
first is loaded from an earlier one along a relationship from the entity of that one to its own, each
lists as children exactly the commands loaded from it, in their order, and the active command is one of
them. -/
structure Session.Consistent (q : Session) : Prop where
  ids : ∀ {i c}, q.tree.get? i = some c → c.id = i
  first : ∃ c, q.tree.get? 0 = some c ∧ c.origin = none
  origins : ∀ {i c}, q.tree.get? i = some c → 0 < i → ∃ o p, c.origin = some o ∧ o.parent < i ∧
    q.tree.get? o.parent = some p ∧ o.relation.source = p.entity ∧ o.relation.target = c.entity
  children : ∀ {i c}, q.tree.get? i = some c → c.children =
    (List.range q.tree.size).filter fun j => (q.tree.get? j).bind Command.parent = some i
  active : ∃ c, q.tree.get? q.active = some c

/-- What the calls of a session keep of that, over the entities of its schema: those that commands and
relationships carry are the ones of their names, so that ends of one name are one entity. -/
structure Session.Linked (catalog : Catalog) (q : Session) : Prop where
  known : ∀ {i c}, q.tree.get? i = some c → catalog.find? c.entity.name = some c.entity
  sources : ∀ {i c o}, q.tree.get? i = some c → c.origin = some o →
    catalog.find? o.relation.source.name = some o.relation.source
  ascending : ∀ {i c}, q.tree.get? i = some c → c.children.Pairwise (· < ·)
  active : q.active < q.tree.size

namespace Session

variable {catalog : Catalog} {q : Session} {id : Nat}

/-- Ascending lists with the same members are the same. -/
theorem eq_of_ascending {xs ys : List Nat} (hxs : xs.Pairwise (· < ·)) (hys : ys.Pairwise (· < ·))
    (hmem : ∀ i, i ∈ xs ↔ i ∈ ys) : xs = ys := by
  have hnodup : ∀ {zs : List Nat}, zs.Pairwise (· < ·) → zs.Nodup := fun h => h.imp Nat.ne_of_lt
  have hperm : xs ~ ys := (perm_ext_iff_of_nodup (hnodup hxs) (hnodup hys)).2 hmem
  refine hperm.eq_of_pairwise (fun a b _ _ hab hba => ?_) hxs hys
  exact absurd hba (Nat.lt_asymm hab)

theorem Linked.consistent (h : q.Linked catalog) (hstands : q.Stands id) : q.Consistent := by
  have ht := hstands.grown.ordered
  constructor
  case ids => exact ht.ids
  case first => exact ht.first
  case origins =>
    intro i c hc hi
    obtain ⟨p, hp, hlt⟩ := ht.parents hc hi
    obtain ⟨o, ho, rfl⟩ := Option.map_eq_some_iff.1 hp
    obtain ⟨htarget, parent, hparent, hname⟩ := ht.sources hc ho
    refine ⟨o, parent, ho, hlt, hparent, ?_, htarget.symm⟩
    -- both are the entity of their name
    have hsource := h.sources hc ho
    rw [← hname, h.known hparent] at hsource
    exact (Option.some.inj hsource).symm
  case children =>
    intro i c hc
    refine eq_of_ascending (h.ascending hc) (List.Pairwise.filter _ pairwise_lt_range) fun j => ?_
    rw [ht.children hc j, mem_filter, mem_range, decide_eq_true_eq, Option.bind_eq_some_iff]
    exact ⟨fun hj => ⟨CommandTree.get?_lt hj.choose_spec.1, hj⟩, And.right⟩
  case active => exact CommandTree.get?_of_lt h.active

theorem Linked.create {settings : Settings} {name : String} {e : Entity}
    (he : catalog.find? name = some e) :
    Linked catalog { settings, tree := .start id e, active := 0 } := by
  have hget : ∀ {i c}, (CommandTree.start id e).get? i = some c →
      c = CommandTree.newest ⟨id, []⟩ e none := by
    intro i c hc
    rcases CommandTree.get?_push_some hc with ⟨-, h⟩ | ⟨hi, -⟩
    · exact h
    · exact absurd hi (Nat.not_lt_zero i)
  constructor
  case known =>
    intro i c hc
    obtain rfl := hget hc
    show catalog.find? e.name = some e
    rw [Catalog.name_of_find? he, he]
  case sources =>
    intro i c o hc ho
    obtain rfl := hget hc
    cases ho
  case ascending =>
    intro i c hc
    obtain rfl := hget hc
    exact .nil
  case active => exact Nat.one_pos

theorem Linked.modify (h : q.Linked catalog) (f : Modifiers → Modifiers) :
    (q.modify f).Linked catalog := by
  have hback : ∀ {i c}, (q.modify f).tree.get? i = some c → ∃ d, q.tree.get? i = some d ∧
      c.entity = d.entity ∧ c.origin = d.origin ∧ c.children = d.children := by
    intro i c hc
    change (q.tree.modify q.active f).get? i = some c at hc
    rw [CommandTree.get?_modify] at hc
    obtain ⟨d, hd, rfl⟩ := Option.map_eq_some_iff.1 hc
    exact ⟨d, hd, by split <;> exact ⟨rfl, rfl, rfl⟩⟩
  constructor
  case known =>
    intro i c hc
    obtain ⟨d, hd, hentity, -⟩ := hback hc
    rw [hentity]
    exact h.known hd
  case sources =>
    intro i c o hc ho
    obtain ⟨d, hd, -, horigin, -⟩ := hback hc
    exact h.sources hd (horigin ▸ ho)
  case ascending =>
    intro i c hc
    obtain ⟨d, hd, -, -, hchildren⟩ := hback hc
    rw [hchildren]
    exact h.ascending hd
  case active =>
    show q.active < (q.tree.modify q.active f).size
    rw [CommandTree.size, CommandTree.modify, length_modify]
    exact h.active

theorem Linked.extend (h : q.Linked catalog) (hstands : q.Stands id) {parent : Nat} {r : Relation}
    (hsource : catalog.find? r.source.name = some r.source)
    (htarget : catalog.find? r.target.name = some r.target) :
    (q.extend parent r).Linked catalog := by
  have ht := hstands.grown.ordered
  constructor
  case known =>
    intro i c hc
    rcases CommandTree.get?_push_some hc with ⟨-, rfl⟩ | ⟨-, d, hd, rfl⟩
    · exact htarget
    · rw [CommandTree.grownBy_entity]
      exact h.known hd
  case sources =>
    intro i c o hc ho
    rcases CommandTree.get?_push_some hc with ⟨-, rfl⟩ | ⟨-, d, hd, rfl⟩
    · cases ho
      exact hsource
    · rw [CommandTree.grownBy_origin] at ho
      exact h.sources hd ho
  case ascending =>
    intro i c hc
    rcases CommandTree.get?_push_some hc with ⟨-, rfl⟩ | ⟨-, d, hd, rfl⟩
    · exact .nil
    · unfold CommandTree.grownBy
      split
      · -- the new child is numbered after all that are there
        refine pairwise_append.2 ⟨h.ascending hd, pairwise_singleton .., fun j hj k hk => ?_⟩
        obtain ⟨e, he, -⟩ := (ht.children hd j).1 hj
        rw [mem_singleton.1 hk]
        exact CommandTree.get?_lt he
      · exact h.ascending hd
  case active =>
    refine CommandTree.get?_lt (c := q.tree.newest r.target (some ⟨parent, r⟩)) ?_
    show (q.tree.push r.target _).get? q.tree.size = _
    rw [CommandTree.get?_push, if_pos rfl]

end Session

/-- What a call does keeps a session linked. -/
theorem Ask.Effect.linked {s : Schema} {id : Nat} {ask : Ask} {q : Option Session} {q' : Session}
    {reply : Reply} (heffect : ask.Effect s id q q' reply)
    (hq : ∀ q₀ ∈ q, q₀.Stands id ∧ q₀.Linked s.catalog) : q'.Linked s.catalog := by
  cases heffect with
  | create he => exact Session.Linked.create he
  | @load q₀ source handle name c r howned hbuild =>
    obtain ⟨pairs, hbuilt⟩ := Relation.build_ok hbuild
    obtain ⟨hstands, hlinked⟩ := hq q₀ rfl
    refine hlinked.extend hstands ?_ ?_
    · rw [Catalog.name_of_find? hbuilt.source]
      exact hbuilt.source
    · rw [Catalog.name_of_find? hbuilt.target]
      exact hbuilt.target
  | change => exact (hq _ rfl).2.modify _
  | plan => exact (hq _ rfl).2

namespace Hub

/-! ## Sessions in use -/

/-- Sessions and the schema that they share, as they come about: on a schema of which no session has been
opened, by calls of sessions and by what is registered on the schema or asked of it in between. -/
inductive Reached : Hub → Prop
  | opened {s : Schema} : s.Reachable → Reached s.hub
  | asked {h : Hub} (id : Nat) (call : Ask) : Reached h → Reached (h.ask id call).1
  | registered {h : Hub} {s : Schema} {entity : String} {definition : RelationDefinition} {u : Unit} :
      Reached h → Schema.register entity definition h.schema = .ok u s → Reached { h with schema := s }
  | resolved {h : Hub} {s : Schema} {entity name : String} {r : Relation} :
      Reached h → Schema.relation entity name h.schema = .ok r s → Reached { h with schema := s }

/-- Sessions that stand and are linked, over a schema whose relationships are those that would be made
now. -/
structure InOrder (h : Hub) : Prop where
  coherent : h.schema.Coherent
  sound : h.Sound
  linked : ∀ id, ∀ q ∈ h.sessions id, q.Linked h.schema.catalog

variable {h : Hub}

/-- A call keeps all sessions in order. -/
theorem InOrder.ask (hh : h.InOrder) (id : Nat) (call : Ask) : (h.ask id call).1.InOrder := by
  have hresolves := h.ask_resolves id call
  refine ⟨hresolves.coherent hh.coherent, (hh.sound.ask id call).1, fun i q hq => ?_⟩
  rw [hresolves.catalog]
  by_cases hi : i = id
  · subst hi
    rcases h.ask_cases i call with ⟨-, heq⟩ | ⟨x, hx, ⟨e, s', -, heq⟩ | ⟨q', reply, s', hstep, heq⟩⟩
    · rw [heq] at hq
      exact hh.linked i q hq
    · rw [heq] at hq
      exact hh.linked i q hq
    · rw [heq] at hq
      change Function.update h.sessions i (some q') i = some q at hq
      rw [Function.update_self] at hq
      cases hq
      refine (Ask.act_effect hh.coherent hx hstep).linked fun q₀ hq₀ => ?_
      exact ⟨hh.sound i q₀ hq₀, hh.linked i q₀ hq₀⟩
  · rw [h.ask_other hi] at hq
    exact hh.linked i q hq

/-- Sessions in use are in order. -/
theorem Reached.inOrder (hreached : h.Reached) : h.InOrder := by
  induction hreached with
  | opened hs => exact ⟨hs.coherent, sound_hub _, nofun⟩
  | asked id call _ ih => exact ih.ask id call
  | registered _ hregister ih =>
    have hcatalog := (Schema.register_ok hregister).2
    refine ⟨ih.coherent.register hregister, ih.sound, fun id q hq => ?_⟩
    rw [hcatalog]
    exact ih.linked id q hq
  | resolved _ hrelation ih =>
    have hresolves := (Schema.relation_ok hrelation).1
    refine ⟨hresolves.coherent ih.coherent, ih.sound, fun id q hq => ?_⟩
    rw [hresolves.catalog]
    exact ih.linked id q hq

/-- Every session in use is consistent. -/
theorem Reached.consistent (hreached : h.Reached) {id : Nat} {q : Session} (hq : q ∈ h.sessions id) :
    q.Consistent :=
  (hreached.inOrder.linked id q hq).consistent (hreached.inOrder.sound id q hq)

end Hub

end GraphLoad
