/-
The calls of a session: opening it, loading from its sets, changing what is asked of the active set and
planning. Every call is one computation on the schema that the session stands on. What it does to the
session is settled here once for all calls: which handles it gives out, that it answers as on a schema of
which nothing has been asked, and that it knows its session by nothing but the number, so that numbers
may be exchanged for others.
-/
import GraphLoad.Proofs.Plan.Faults
import GraphLoad.Session

namespace GraphLoad

open Sql

/-! ## Calls -/

namespace Session

/-- What may be changed of the active set. -/
inductive Change
  | orderBy (field : String) (direction : Direction)
  | orderByClause (clause : String)
  | select (fields : List String)
  | selectExcept (fields : List String)
  | limit (n : Nat)
  | offset (n : Nat)
  | policy (policy : ChainPolicy)
  | policyNamed (name : String)
  | restrict (field : String) (operator : Operator) (value : Value)
  | restrictBy (field operator : String) (value : Value)

/-- The session after a change, unless the change is written as none can be. -/
def change (q : Session) : Change → Except LoadError Session
  | .orderBy field direction => .ok (q.orderBy field direction)
  | .orderByClause clause => q.orderByClause clause
  | .select fields => .ok (q.select fields)
  | .selectExcept fields => .ok (q.selectExcept fields)
  | .limit n => .ok (q.limit n)
  | .offset n => .ok (q.offset n)
  | .policy policy => .ok (q.policy policy)
  | .policyNamed name => q.policyNamed name
  | .restrict field operator value => .ok (q.restrict field operator value)
  | .restrictBy field operator value => q.restrictBy field operator value

end Session

/-- What a session is asked. -/
inductive Ask
  | create (entity : String) (settings : Settings)
  | load (source : SetRef) (relationship : String)
  | change (c : Session.Change)
  | plan

/-- What a session replies. -/
inductive Reply
  | set (handle : SetRef)
  | changed
  | plan (p : Plan)

/-- The handle on the set that a session has just added. -/
def Session.handOut (q : Session) (missing : String) : Except LoadError (Session × Reply) :=
  match q.activeSet? with
  | some handle => .ok (q, .set handle)
  | none => .error (.internal missing)

/-- What a session of a number does when it is asked something. A number that is taken opens no further
session, and where there is no session there is nobody to ask. -/
def Ask.act (id : Nat) : Ask → Option Session → Option (Resolving (Session × Reply))
  | .create entity settings, none => some do
    let s ← get
    let q ← lift (Session.create s id entity settings)
    lift (q.handOut "tree without root")
  | .load source relationship, some q => some do
    let q ← q.load source relationship
    lift (q.handOut "command without set")
  | .change c, some q => some do
    let q ← lift (q.change c)
    return (q, .changed)
  | .plan, some q => some do
    let p ← q.plan
    return (q, .plan p)
  | _, _ => none

/-! ## What calls do -/

namespace Session

/-- A change modifies what is asked of the active set, and how it does is not for the session to say. -/
theorem change_eq (c : Change) :
    (∃ f, ∀ q : Session, q.change c = .ok (q.modify f)) ∨ ∃ e, ∀ q : Session, q.change c = .error e := by
  cases c
  case orderByClause clause =>
    cases h : OrderTerm.parseList clause with
    | ok terms => exact .inl ⟨_, fun q => by rw [change, orderByClause, h]; rfl⟩
    | error e => exact .inr ⟨e, fun q => by rw [change, orderByClause, h]; rfl⟩
  case policyNamed name =>
    cases h : ChainPolicy.parse name with
    | ok policy => exact .inl ⟨_, fun q => by rw [change, policyNamed, h]; rfl⟩
    | error e => exact .inr ⟨e, fun q => by rw [change, policyNamed, h]; rfl⟩
  case restrictBy field operator value =>
    cases h : Operator.parse operator with
    | ok parsed => exact .inl ⟨_, fun q => by rw [change, restrictBy, h]; rfl⟩
    | error e => exact .inr ⟨e, fun q => by rw [change, restrictBy, h]; rfl⟩
  all_goals exact .inl ⟨_, fun q => rfl⟩

/-- A session that stands: of the number it was opened with, over a tree that has grown. -/
structure Stands (id : Nat) (q : Session) : Prop where
  grown : q.tree.Grown
  session : q.tree.session = id

variable {q q' : Session} {id : Nat}

theorem Stands.mem_sets (h : q.Stands id) (handle : SetRef) : handle ∈ q.sets ↔
    handle.session = id ∧ ∃ c, q.tree.get? handle.command = some c ∧ c.aliasName = handle.aliasName := by
  unfold sets
  rw [List.mem_map, h.session]
  constructor
  · rintro ⟨c, hc, rfl⟩
    obtain ⟨i, hi⟩ := List.getElem?_of_mem hc
    have hid := h.grown.ordered.ids hi
    exact ⟨rfl, c, by rw [← hid] at hi; exact hi, rfl⟩
  · rintro ⟨hsession, c, hc, halias⟩
    refine ⟨c, List.mem_of_getElem? hc, ?_⟩
    rw [h.grown.ordered.ids hc, halias, ← hsession]

/-- A handle is good for a session if it is one on a set of the session. -/
theorem Stands.owned_ok (h : q.Stands id) {handle : SetRef} (hmem : handle ∈ q.sets) :
    ∃ c, q.tree.get? handle.command = some c ∧ q.owned handle = .ok c := by
  obtain ⟨hsession, c, hc, halias⟩ := (h.mem_sets handle).1 hmem
  refine ⟨c, hc, ?_⟩
  unfold owned
  rw [hc]
  exact if_pos ⟨hsession.trans h.session.symm, halias⟩

theorem Stands.owned_error (h : q.Stands id) {handle : SetRef} (hmem : handle ∉ q.sets) :
    q.owned handle = .error (.foreignSet handle.aliasName) := by
  unfold owned
  cases hc : q.tree.get? handle.command with
  | none => rfl
  | some c =>
    refine if_neg fun ⟨hsession, halias⟩ => hmem ((h.mem_sets handle).2 ?_)
    exact ⟨hsession.trans h.session, c, hc, halias⟩

/-! ## Handles -/

theorem sets_modify (q : Session) (f : Modifiers → Modifiers) : (q.modify f).sets = q.sets :=
  CommandTree.map_modify (fun _ _ => rfl) q.tree q.active f

theorem Stands.modify (h : q.Stands id) (f : Modifiers → Modifiers) : (q.modify f).Stands id :=
  ⟨.modify q.active f h.grown, h.session⟩

theorem Stands.create {s : Schema} {entity : String} {settings : Settings}
    (h : Session.create s id entity settings = .ok q) : q.Stands id ∧ q.activeSet?.toList = q.sets := by
  obtain ⟨e, -, h⟩ := except_bind_ok h
  cases h
  exact ⟨⟨.start id e, rfl⟩, rfl⟩

/-- A set that has just been added is the active one. -/
theorem activeSet?_push (q : Session) (e : Entity) (o : Option Origin) :
    ({ q with tree := q.tree.push e o, active := q.tree.size } : Session).activeSet? =
      some ⟨q.tree.session, q.tree.size, (q.tree.newest e o).aliasName⟩ := by
  unfold activeSet? CommandTree.setRef?
  rw [CommandTree.get?_push, if_pos rfl]
  rfl

/-- Loading from a handle of the session adds one set and hands it out. -/
theorem Stands.load {s s' : Schema} {source : SetRef} {relationship : String} (h : q.Stands id)
    (hload : q.load source relationship s = .ok q' s') :
    q'.Stands id ∧ q'.sets = q.sets ++ q'.activeSet?.toList := by
  unfold Session.load at hload
  obtain ⟨parent, s₁, -, hload⟩ := step_bind_ok hload
  obtain ⟨r, s₂, -, hload⟩ := step_bind_ok hload
  obtain ⟨⟨t, leaf⟩, s₃, hadd, hload⟩ := step_bind_ok hload
  obtain ⟨hadd, -⟩ := step_lift_ok hadd
  obtain ⟨rfl, -⟩ := step_pure_ok hload
  refine ⟨⟨.add h.grown hadd, ?_⟩, ?_⟩
  all_goals obtain ⟨p, -, -, rfl, rfl⟩ := CommandTree.add_ok hadd
  · exact h.session
  · rw [activeSet?_push]
    exact CommandTree.map_push (fun _ _ => rfl) q.tree r.target _

/-- Loading from a handle of the session comes to looking up the relationship of the set's entity. -/
theorem Stands.answer_load (h : q.Stands id) {handle : SetRef} (hmem : handle ∈ q.sets) {s : Schema}
    (hs : s.Coherent) : ∃ c, q.tree.get? handle.command = some c ∧ ∀ name,
      answer (q.load handle name) s = (answer (Schema.relation c.entity.name name) s).map fun r =>
        { q with tree := q.tree.push r.target (some ⟨handle.command, r⟩), active := q.tree.size } := by
  obtain ⟨c, hc, howned⟩ := h.owned_ok hmem
  refine ⟨c, hc, fun name => ?_⟩
  unfold Session.load
  rw [howned, answer_bind, answer_lift, leaves_lift]
  dsimp only
  rw [answer_bind, Schema.answer_relation hs]
  cases hbuild : s.build c.entity.name name with
  | error e => rfl
  | ok r =>
    -- the relationship starts at the entity that it was asked of, so the tree takes it
    obtain ⟨pairs, hbuilt⟩ := Relation.build_ok hbuild
    have hadd : q.tree.add handle.command r =
        .ok (q.tree.push r.target (some ⟨handle.command, r⟩), q.tree.size) := by
      unfold CommandTree.add
      rw [hc]
      exact if_pos (Catalog.name_of_find? hbuilt.source).symm
    dsimp only
    rw [hadd, answer_bind, answer_lift]
    rfl

end Session

/-- The handles that a reply gives out. -/
def Reply.given : Reply → List SetRef
  | .set handle => [handle]
  | _ => []

/-- The handles on the sets of a session, if there is one. -/
def Session.setsOf (q : Option Session) : List SetRef := q.elim [] Session.sets

theorem Session.handOut_ok {q : Session} {missing : String} {answered : Session × Reply}
    (h : q.handOut missing = .ok answered) :
    answered.1 = q ∧ answered.2.given = q.activeSet?.toList := by
  unfold handOut at h
  split at h
  · rename_i handle hactive
    cases h
    rw [hactive]
    exact ⟨rfl, rfl⟩
  · cases h

/-- A session that stands still stands after it has replied, and has given out a handle on every set
that it has added. -/
theorem Ask.act_stands {id : Nat} {ask : Ask} {q : Option Session} {x : Resolving (Session × Reply)}
    (hq : ∀ q₀ ∈ q, q₀.Stands id) (hx : ask.act id q = some x) {s s' : Schema} {q' : Session}
    {reply : Reply} (h : x s = .ok (q', reply) s') :
    q'.Stands id ∧ q'.sets = Session.setsOf q ++ reply.given := by
  cases ask with
  | create entity settings =>
    cases q with
    | some q₀ => cases hx
    | none =>
      cases hx
      obtain ⟨s₁, s₂, -, h⟩ := step_bind_ok h
      obtain ⟨q₁, s₃, hcreate, h⟩ := step_bind_ok h
      obtain ⟨hout, -⟩ := step_lift_ok h
      obtain ⟨rfl, hgiven⟩ := Session.handOut_ok hout
      obtain ⟨hstands, hactive⟩ := Session.Stands.create (step_lift_ok hcreate).1
      exact ⟨hstands, (hgiven.trans hactive).symm⟩
  | load source relationship =>
    cases q with
    | none => cases hx
    | some q₀ =>
      cases hx
      obtain ⟨q₁, s₁, hload, h⟩ := step_bind_ok h
      obtain ⟨hout, -⟩ := step_lift_ok h
      obtain ⟨rfl, hgiven⟩ := Session.handOut_ok hout
      rw [hgiven]
      exact (hq q₀ rfl).load hload
  | change c =>
    cases q with
    | none => cases hx
    | some q₀ =>
      cases hx
      obtain ⟨q₁, s₁, hchange, h⟩ := step_bind_ok h
      obtain ⟨heq, -⟩ := step_pure_ok h
      cases heq
      have hchange := (step_lift_ok hchange).1
      rcases Session.change_eq c with ⟨f, hf⟩ | ⟨e, he⟩
      · rw [hf] at hchange
        cases hchange
        refine ⟨(hq q₀ rfl).modify f, ?_⟩
        rw [Session.sets_modify]
        exact (List.append_nil _).symm
      · rw [he] at hchange
        cases hchange
  | plan =>
    cases q with
    | none => cases hx
    | some q₀ =>
      cases hx
      obtain ⟨p, s₁, -, h⟩ := step_bind_ok h
      obtain ⟨heq, -⟩ := step_pure_ok h
      cases heq
      exact ⟨hq _ rfl, (List.append_nil _).symm⟩

/-! ## Schemas of which nothing has been asked -/

theorem Session.uncached_load (q : Session) (source : SetRef) (relationship : String) :
    Schema.Uncached (q.load source relationship) :=
  (Schema.Uncached.lift _).bind fun _ => (Schema.uncached_relation _ _).bind fun _ =>
    (Schema.Uncached.lift _).bind fun _ => .pure _

/-- Whatever a session is asked, what has been resolved on its schema does not show. -/
theorem Ask.uncached {id : Nat} {ask : Ask} {q : Option Session} {x : Resolving (Session × Reply)}
    (hx : ask.act id q = some x) : Schema.Uncached x := by
  cases ask with
  | create entity settings =>
    cases q with
    | some q₀ => cases hx
    | none =>
      cases hx
      refine ⟨Moves.bind .trans (fun s => .refl s) fun s => ?_, fun s _ => ?_⟩
      · exact Moves.bind .trans (Moves.lift .refl _) fun _ => Moves.lift .refl _
      · -- opening looks up an entity, and the entities are the same
        simp only [answer_bind, answer_get, leaves_get, answer_lift, leaves_lift]
        rfl
  | load source relationship =>
    cases q with
    | none => cases hx
    | some q₀ =>
      cases hx
      exact (q₀.uncached_load source relationship).bind fun _ => .lift _
  | change c =>
    cases q with
    | none => cases hx
    | some q₀ =>
      cases hx
      exact (Schema.Uncached.lift _).bind fun _ => .pure _
  | plan =>
    cases q with
    | none => cases hx
    | some q₀ =>
      cases hx
      exact (Schema.uncached_make q₀.tree q₀.settings).bind fun _ => .pure _

end GraphLoad
