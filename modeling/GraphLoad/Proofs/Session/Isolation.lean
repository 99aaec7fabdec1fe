/-
Sessions side by side on one schema. Main statement: however their calls are interleaved, each session
answers as if it had been asked alone, by whatever number, on a schema of which nothing has been asked;
it accepts the handles that it has given out, and no others: those of another session are foreign to it
even where they name the same set, change nothing, and find nothing in what it has loaded.
-/
import GraphLoad.Proofs.Run.Footprint
import GraphLoad.Proofs.Session.Renaming

namespace GraphLoad

/-- What has been asked of sessions, each with its number. -/
abbrev Calls := List (Nat × Ask)

/-- What sessions have answered, each with its number; nothing, if there was nobody to ask. -/
abbrev Answers := List (Nat × Option (Except LoadError Reply))

/-- Sessions on one schema, by their numbers. -/
structure Hub where
  schema : Schema
  sessions : Nat → Option Session := fun _ => none

namespace Hub

/-- Asks the session of a number. The schema is left as the call leaves it; the session as it was if the
call fails. -/
def ask (h : Hub) (id : Nat) (call : Ask) : Hub × Option (Except LoadError Reply) :=
  match call.act id (h.sessions id) with
  | none => (h, none)
  | some x =>
    let sessions :=
      match answer x h.schema with
      | .ok (q, _) => Function.update h.sessions id (some q)
      | .error _ => h.sessions
    (⟨leaves x h.schema, sessions⟩, some ((answer x h.schema).map Prod.snd))

/-- What some calls lead to. -/
def after (h : Hub) : Calls → Hub
  | [] => h
  | (id, call) :: calls => (h.ask id call).1.after calls

/-- What some calls are answered. -/
def answers (h : Hub) : Calls → Answers
  | [] => []
  | (id, call) :: calls => (id, (h.ask id call).2) :: (h.ask id call).1.answers calls

end Hub

/-- The calls of one session, its number and those in its handles given by `ρ`. -/
def Calls.own (ρ : Nat → Nat) (id : Nat) (calls : Calls) : Calls :=
  (calls.filter (·.1 = id)).map fun call => (ρ call.1, call.2.rename ρ)

/-- The answers of one session, its number and those in its handles and plans given by `ρ`. -/
def Answers.own (ρ : Nat → Nat) (id : Nat) (answers : Answers) : Answers :=
  (answers.filter (·.1 = id)).map fun a => (ρ a.1, a.2.map (Except.map (Reply.rename ρ)))

/-- The handles that one session has given out. -/
def Answers.handles (id : Nat) (answers : Answers) : List SetRef :=
  answers.flatMap fun a =>
    match a.2 with
    | some (.ok reply) => if a.1 = id then reply.given else []
    | _ => []

theorem Answers.handles_cons (id : Nat) (a : Nat × Option (Except LoadError Reply))
    (answers : Answers) :
    Answers.handles id (a :: answers) = Answers.handles id [a] ++ answers.handles id := by
  simp only [handles, List.flatMap_cons, List.flatMap_nil, List.append_nil]

section
variable (ρ : Nat → Nat) {id i : Nat}

@[simp] theorem Calls.own_self (call : Ask) (calls : Calls) :
    Calls.own ρ id ((id, call) :: calls) = (ρ id, call.rename ρ) :: calls.own ρ id := by
  simp [own]

theorem Calls.own_other (hne : i ≠ id) (call : Ask) (calls : Calls) :
    Calls.own ρ id ((i, call) :: calls) = calls.own ρ id := by
  simp [own, hne]

@[simp] theorem Answers.own_self (a : Option (Except LoadError Reply)) (answers : Answers) :
    Answers.own ρ id ((id, a) :: answers) =
      (ρ id, a.map (Except.map (Reply.rename ρ))) :: answers.own ρ id := by
  simp [own]

theorem Answers.own_other (hne : i ≠ id) (a : Option (Except LoadError Reply)) (answers : Answers) :
    Answers.own ρ id ((i, a) :: answers) = answers.own ρ id := by
  simp [own, hne]

end

namespace Hub

variable {h solo : Hub} {ρ : Nat → Nat} {id : Nat}

/-! ## One call -/

/-- What a call comes to: nobody is asked, or a computation on the schema fails and changes no session,
or it succeeds and changes the session asked. -/
theorem ask_cases (h : Hub) (id : Nat) (call : Ask) :
    (call.act id (h.sessions id) = none ∧ h.ask id call = (h, none)) ∨
      ∃ x, call.act id (h.sessions id) = some x ∧
        ((∃ e s', x h.schema = .error e s' ∧
            h.ask id call = (⟨s', h.sessions⟩, some (.error e))) ∨
          ∃ q reply s', x h.schema = .ok (q, reply) s' ∧ h.ask id call =
            (⟨s', Function.update h.sessions id (some q)⟩, some (.ok reply))) := by
  unfold ask
  cases hx : call.act id (h.sessions id) with
  | none => exact .inl ⟨rfl, rfl⟩
  | some x =>
    refine .inr ⟨x, rfl, ?_⟩
    dsimp only
    cases hstep : x h.schema with
    | ok p s' =>
      rw [(answer_of_ok hstep).1, (answer_of_ok hstep).2]
      exact .inr ⟨p.1, p.2, s', rfl, rfl⟩
    | error e s' =>
      rw [(answer_of_error hstep).1, (answer_of_error hstep).2]
      exact .inl ⟨e, s', rfl, rfl⟩

/-- A call only resolves relationships of the schema. -/
theorem ask_resolves (h : Hub) (id : Nat) (call : Ask) : h.schema.Resolves (h.ask id call).1.schema := by
  unfold ask
  split
  · exact .refl _
  · rename_i x hx
    exact (Ask.uncached hx).moves.leaves h.schema

/-- A call of one session leaves the others alone. -/
theorem ask_other (h : Hub) {i : Nat} (hne : id ≠ i) (call : Ask) :
    (h.ask i call).1.sessions id = h.sessions id := by
  rcases h.ask_cases i call with ⟨-, heq⟩ | ⟨x, -, ⟨e, s', -, heq⟩ | ⟨q, reply, s', -, heq⟩⟩
  · rw [heq]
  · rw [heq]
  · rw [heq]
    exact Function.update_of_ne hne ..

/-! ## Two runs -/

/-- A hub that holds one session of another, by another number, and a schema that answers like the
other. -/
structure Mirrors (ρ : Nat → Nat) (id : Nat) (solo h : Hub) : Prop where
  fresh : solo.schema.fresh = h.schema.fresh
  alone : solo.schema.Coherent
  coherent : h.schema.Coherent
  session : solo.sessions (ρ id) = (h.sessions id).map (Session.rename ρ)

/-- Calls of other sessions do not show. -/
theorem Mirrors.other (hm : Mirrors ρ id solo h) {i : Nat} (hne : id ≠ i) (call : Ask) :
    Mirrors ρ id solo (h.ask i call).1 := by
  have hresolves := h.ask_resolves i call
  exact ⟨hm.fresh.trans hresolves.fresh.symm, hm.alone, hresolves.coherent hm.coherent,
    hm.session.trans (by rw [h.ask_other hne])⟩

/-- A call of the session is answered alike. -/
theorem Mirrors.own (hm : Mirrors ρ id solo h) (hρ : Function.Injective ρ) (call : Ask) :
    (solo.ask (ρ id) (call.rename ρ)).2 =
        (h.ask id call).2.map (Except.map (Reply.rename ρ)) ∧
      Mirrors ρ id (solo.ask (ρ id) (call.rename ρ)).1 (h.ask id call).1 := by
  have hresolves := h.ask_resolves id call
  have hresolves' := solo.ask_resolves (ρ id) (call.rename ρ)
  have hact : (call.rename ρ).act (ρ id) (solo.sessions (ρ id)) =
      (call.act id (h.sessions id)).map fun x => (fun p => (p.1.rename ρ, p.2.rename ρ)) <$> x := by
    rw [hm.session]
    exact Ask.act_rename hρ id call _
  suffices hsuffices : (solo.ask (ρ id) (call.rename ρ)).2 =
        (h.ask id call).2.map (Except.map (Reply.rename ρ)) ∧
      (solo.ask (ρ id) (call.rename ρ)).1.sessions (ρ id) =
        ((h.ask id call).1.sessions id).map (Session.rename ρ) from
    ⟨hsuffices.1, hresolves'.fresh.trans (hm.fresh.trans hresolves.fresh.symm),
      hresolves'.coherent hm.alone, hresolves.coherent hm.coherent, hsuffices.2⟩
  unfold ask
  rw [hact]
  cases hx : call.act id (h.sessions id) with
  | none => exact ⟨rfl, hm.session⟩
  | some x =>
    -- whatever either schema has resolved in the meantime, they answer as one without it
    have hx' := Ask.uncached hx
    have hsame : answer x solo.schema = answer x h.schema := by
      rw [hx'.answers _ hm.alone, hx'.answers _ hm.coherent, hm.fresh]
    rw [Option.map_some]
    dsimp only
    rw [answer_map, hsame]
    cases answer x h.schema with
    | error e => exact ⟨rfl, hm.session⟩
    | ok p => exact ⟨rfl, by simp only [Except.map, Function.update_self, Option.map_some]⟩

/-- Of any calls the session answers its own alike, and is left alike. -/
theorem Mirrors.run (hρ : Function.Injective ρ) (calls : Calls) :
    ∀ {solo h : Hub}, Mirrors ρ id solo h →
      solo.answers (calls.own ρ id) = (h.answers calls).own ρ id ∧
        Mirrors ρ id (solo.after (calls.own ρ id)) (h.after calls) := by
  induction calls with
  | nil => exact fun hm => ⟨rfl, hm⟩
  | cons call calls ih =>
    intro solo h hm
    obtain ⟨i, call⟩ := call
    rw [answers]
    by_cases hi : i = id
    · subst hi
      obtain ⟨hanswer, hnext⟩ := hm.own hρ call
      obtain ⟨hanswers, hafter⟩ := ih hnext
      rw [Calls.own_self, Answers.own_self, answers, hanswer, hanswers]
      exact ⟨rfl, hafter⟩
    · rw [Calls.own_other ρ hi, Answers.own_other ρ hi]
      exact ih (hm.other (Ne.symm hi) call)

/-! ## Handles -/

/-- A hub whose sessions stand, each by its number. -/
def Sound (h : Hub) : Prop := ∀ id, ∀ q ∈ h.sessions id, q.Stands id

/-- A call keeps the sessions standing, and gives out handles on all sets that it adds. -/
theorem Sound.ask (hsound : h.Sound) (i : Nat) (call : Ask) :
    (h.ask i call).1.Sound ∧ ∀ id, Session.setsOf ((h.ask i call).1.sessions id) =
      Session.setsOf (h.sessions id) ++ Answers.handles id [(i, (h.ask i call).2)] := by
  rcases h.ask_cases i call with ⟨-, heq⟩ | ⟨x, hx, ⟨e, s', -, heq⟩ | ⟨q, reply, s', hstep, heq⟩⟩
  · rw [heq]
    exact ⟨hsound, fun id => (List.append_nil _).symm⟩
  · rw [heq]
    exact ⟨hsound, fun id => (List.append_nil _).symm⟩
  · obtain ⟨hstands, hsets⟩ := Ask.act_stands (hsound i) hx hstep
    rw [heq]
    constructor
    · intro id q' hq'
      change Function.update h.sessions i (some q) id = some q' at hq'
      by_cases hi : id = i
      · subst hi
        rw [Function.update_self] at hq'
        cases hq'
        exact hstands
      · rw [Function.update_of_ne hi] at hq'
        exact hsound id q' hq'
    · intro id
      by_cases hi : id = i
      · subst hi
        simp only [Function.update_self, Answers.handles, List.flatMap_singleton, if_true]
        exact hsets
      · simp [Function.update_of_ne hi, Answers.handles, Ne.symm hi]

/-- After any calls a session has handles out on its sets, one on each, and on no others. -/
theorem Sound.run (calls : Calls) : ∀ {h : Hub}, h.Sound →
    (h.after calls).Sound ∧ ∀ id, Session.setsOf ((h.after calls).sessions id) =
      Session.setsOf (h.sessions id) ++ (h.answers calls).handles id := by
  induction calls with
  | nil => exact fun hsound => ⟨hsound, fun id => (List.append_nil _).symm⟩
  | cons call calls ih =>
    intro h hsound
    obtain ⟨i, call⟩ := call
    obtain ⟨hnext, hgiven⟩ := hsound.ask i call
    obtain ⟨hafter, hlater⟩ := ih hnext
    refine ⟨hafter, fun id => ?_⟩
    rw [after, hlater, hgiven, answers, Answers.handles_cons id _ ((h.ask i call).1.answers calls),
      List.append_assoc]

/-- A session of a hub accepts a handle: loading from it adds a set and hands it out, unless the entity
of its set has no such relationship. -/
def Accepts (h : Hub) (id : Nat) (handle : SetRef) : Prop :=
  ∃ q ∈ h.sessions id, ∃ c, q.tree.get? handle.command = some c ∧
    ∀ name, match answer (Schema.relation c.entity.name name) h.schema with
      | .ok _ => ∃ added, (h.ask id (.load handle name)).2 = some (.ok (.set added))
      | .error e => (h.ask id (.load handle name)).2 = some (.error e) ∧ e.code ≠ .foreignSet

/-- A session of a hub rejects a handle as foreign, and nothing changes. -/
def Rejects (h : Hub) (id : Nat) (handle : SetRef) : Prop :=
  ∀ name, h.ask id (.load handle name) = (h, some (.error (.foreignSet handle.aliasName)))

theorem ask_load {q : Session} (hq : h.sessions id = some q) (handle : SetRef) (name : String) :
    (Ask.load handle name).act id (h.sessions id) =
      some (q.load handle name >>= fun q => lift (q.handOut "command without set")) := by
  rw [hq]
  rfl

theorem accepts {q : Session} (hcoherent : h.schema.Coherent) (hq : h.sessions id = some q)
    (hstands : q.Stands id) {handle : SetRef} (hmem : handle ∈ q.sets) : h.Accepts id handle := by
  obtain ⟨c, hc, hload⟩ := hstands.answer_load hmem hcoherent
  refine ⟨q, hq, c, hc, fun name => ?_⟩
  unfold ask
  rw [ask_load hq]
  dsimp only
  rw [answer_bind, hload, Schema.answer_relation hcoherent]
  cases hbuild : h.schema.build c.entity.name name with
  | error e =>
    refine ⟨rfl, fun hcode => ?_⟩
    have hstage := Relation.configured_build h.schema.catalog c.entity.name name _ e hbuild
    rw [hcode] at hstage
    cases hstage
  | ok r =>
    let added := q.tree.newest r.target (some ⟨handle.command, r⟩)
    refine ⟨⟨q.tree.session, q.tree.size, added.aliasName⟩, ?_⟩
    dsimp only [Except.map]
    rw [answer_lift, Session.handOut, Session.activeSet?_push]

theorem rejects {q : Session} (hq : h.sessions id = some q) (hstands : q.Stands id)
    {handle : SetRef} (hmem : handle ∉ q.sets) : h.Rejects id handle := by
  intro name
  have hstep : (q.load handle name >>= fun q => lift (q.handOut "command without set")) h.schema =
      .error (.foreignSet handle.aliasName) h.schema := by
    unfold Session.load
    rw [hstands.owned_error hmem]
    rfl
  unfold ask
  rw [ask_load hq]
  dsimp only
  rw [(answer_of_error hstep).1, (answer_of_error hstep).2]
  rfl

end Hub

/-! ## What has been loaded -/

namespace Session

variable {q : Session} {id : Nat} {s : Schema} {executor : Executor} {out : Output}

/-- What a session loads is of its number and has its sets by their aliases. -/
theorem execute_ok (ht : q.tree.Ordered) (hout : (q.execute executor s).1.result = .ok out) :
    out.session = q.tree.session ∧
      ∀ i, (out.sets[i]?).map ResultSet.aliasName = (q.tree.get? i).map Command.aliasName := by
  unfold execute at hout
  split at hout
  case h_2 => cases hout
  case h_1 plan s' hplan =>
    have hmade := Plan.made_of_make hplan
    dsimp only at hout
    unfold Plan.execute at hout
    split at hout
    case h_2 => cases hout
    case h_1 run hrun =>
      cases hout
      refine ⟨congrArg CommandTree.session hmade.tree, fun i => ?_⟩
      cases hc : q.tree.get? i with
      | some c =>
        dsimp only
        rw [hmade.set_of_run ht hrun hc]
        rfl
      | none =>
        have hlength : (Run.resultSets plan.tree run.sets).length ≤ q.tree.size := by
          rw [hmade.tree, Run.resultSets, List.length_map, List.length_zip]
          exact Nat.min_le_left _ _
        dsimp only
        rw [List.getElem?_eq_none (hlength.trans (List.getElem?_eq_none_iff.1 hc))]
        rfl

/-- A set is found for the handles of the session and for no others. -/
theorem Stands.set?_execute (h : q.Stands id) (hout : (q.execute executor s).1.result = .ok out)
    (handle : SetRef) : (out.set? handle).isSome ↔ handle ∈ q.sets := by
  obtain ⟨hsession, haliases⟩ := execute_ok h.grown.ordered hout
  have halias := haliases handle.command
  rw [h.mem_sets, Output.set?, hsession, h.session]
  by_cases hid : handle.session = id
  · rw [if_pos hid]
    cases hc : q.tree.get? handle.command with
    | none =>
      rw [hc, Option.map_none, Option.map_eq_none_iff] at halias
      rw [halias]
      exact ⟨nofun, fun ⟨_, c, hc, _⟩ => nomatch hc⟩
    | some c =>
      rw [hc, Option.map_some, Option.map_eq_some_iff] at halias
      obtain ⟨set, hset, halias⟩ := halias
      rw [hset, Option.isSome_filter, Option.any_some, halias, beq_iff_eq]
      exact ⟨fun heq => ⟨hid, c, rfl, heq⟩, fun ⟨_, c', hc', heq⟩ => by cases hc'; exact heq⟩
  · rw [if_neg hid]
    exact ⟨nofun, fun hin => (hid hin.1).elim⟩

end Session

/-! ## Sessions side by side -/

/-- A schema of which no session has been opened. -/
def Schema.hub (s : Schema) : Hub := { schema := s }

/-- One session of many. Its own calls are answered alike when they are asked alone, of a session by
another number and on a schema of which nothing has been asked; they leave such a session, and what it
plans, alike. It accepts the handles that it has given out, all of which bear its number, and rejects any
other. What it loads has a set for the handles that it has given out, and for any other neither a set nor
records. -/
structure Isolated (ρ : Nat → Nat) (s : Schema) (calls : Calls) (id : Nat) : Prop where
  answers : s.fresh.hub.answers (calls.own ρ id) = (s.hub.answers calls).own ρ id
  session : (s.fresh.hub.after (calls.own ρ id)).sessions (ρ id) =
    ((s.hub.after calls).sessions id).map (Session.rename ρ)
  plan : ∀ q ∈ (s.hub.after calls).sessions id,
    answer (q.rename ρ).plan (s.fresh.hub.after (calls.own ρ id)).schema =
      (answer q.plan (s.hub.after calls).schema).map (Plan.rename ρ)
  numbered : ∀ handle ∈ (s.hub.answers calls).handles id, handle.session = id
  accepts : ∀ handle ∈ (s.hub.answers calls).handles id, (s.hub.after calls).Accepts id handle
  rejects : ∀ q ∈ (s.hub.after calls).sessions id, ∀ handle ∉ (s.hub.answers calls).handles id,
    (s.hub.after calls).Rejects id handle
  found : ∀ q ∈ (s.hub.after calls).sessions id, ∀ executor out,
    (q.execute executor (s.hub.after calls).schema).1.result = .ok out →
      ∀ handle, (out.set? handle).isSome ↔ handle ∈ (s.hub.answers calls).handles id
  unseen : ∀ q ∈ (s.hub.after calls).sessions id, ∀ executor out,
    (q.execute executor (s.hub.after calls).schema).1.result = .ok out →
      ∀ handle ∉ (s.hub.answers calls).handles id, out.set? handle = none ∧ out.records handle = []

namespace Hub

theorem mirrors_fresh {s : Schema} (hs : s.Coherent) (ρ : Nat → Nat) (id : Nat) :
    Mirrors ρ id s.fresh.hub s.hub := ⟨rfl, s.fresh_coherent, hs, rfl⟩

theorem sound_hub (s : Schema) : s.hub.Sound := fun _ _ h => nomatch h

section
variable {s : Schema} {calls : Calls} {id : Nat} {q : Session}

theorem stands_after (hq : q ∈ (s.hub.after calls).sessions id) : q.Stands id :=
  (Sound.run calls (sound_hub s)).1 id q hq

/-- The handles that a session has given out are those on its sets. -/
theorem handles_after (hq : q ∈ (s.hub.after calls).sessions id) :
    (s.hub.answers calls).handles id = q.sets := by
  have hsets : Session.setsOf ((s.hub.after calls).sessions id) = _ :=
    (Sound.run calls (sound_hub s)).2 id
  rw [show (s.hub.after calls).sessions id = some q from hq] at hsets
  exact hsets.symm

/-- Where a handle was given out, the session that gave it out is there. -/
theorem exists_holder {handle : SetRef} (hmem : handle ∈ (s.hub.answers calls).handles id) :
    ∃ q ∈ (s.hub.after calls).sessions id, handle ∈ q.sets := by
  have hsets : Session.setsOf ((s.hub.after calls).sessions id) = _ :=
    (Sound.run calls (sound_hub s)).2 id
  cases hq : (s.hub.after calls).sessions id with
  | some q => exact ⟨q, rfl, handles_after hq ▸ hmem⟩
  | none =>
    rw [hq] at hsets
    exact nomatch (hsets ▸ hmem : handle ∈ Session.setsOf none)

end

/-- Sessions on one schema are isolated, however their calls are interleaved. -/
theorem sessions_isolated {s : Schema} (hs : s.Reachable) {ρ : Nat → Nat} (hρ : Function.Injective ρ)
    (calls : Calls) (id : Nat) : Isolated ρ s calls id := by
  obtain ⟨hanswers, hafter⟩ := Mirrors.run hρ calls (mirrors_fresh hs.coherent ρ id)
  constructor
  case answers => exact hanswers
  case session => exact hafter.session
  case plan =>
    intro q _
    have hplan : (q.rename ρ).plan = Plan.rename ρ <$> q.plan := Plan.make_rename ρ q.tree q.settings
    have hcached := Schema.uncached_make q.tree q.settings
    rw [hplan, answer_map]
    refine congrArg (Except.map (Plan.rename ρ)) ?_
    exact (hcached.answers _ hafter.alone).trans
      ((congrArg _ hafter.fresh).trans (hcached.answers _ hafter.coherent).symm)
  case numbered =>
    intro handle hmem
    obtain ⟨q, hq, hmem⟩ := exists_holder hmem
    exact (((stands_after hq).mem_sets handle).1 hmem).1
  case accepts =>
    intro handle hmem
    obtain ⟨q, hq, hmem⟩ := exists_holder hmem
    exact Hub.accepts hafter.coherent hq (stands_after hq) hmem
  case rejects =>
    intro q hq handle hmem
    rw [handles_after hq] at hmem
    exact Hub.rejects hq (stands_after hq) hmem
  case found =>
    intro q hq executor out hout handle
    rw [handles_after hq]
    exact (stands_after hq).set?_execute hout handle
  case unseen =>
    intro q hq executor out hout handle hmem
    rw [handles_after hq, ← (stands_after hq).set?_execute hout handle, Bool.not_eq_true,
      Option.isSome_eq_false_iff, Option.isNone_iff_eq_none] at hmem
    refine ⟨hmem, ?_⟩
    unfold Output.records
    rw [hmem]

/-- Two sessions that load authors. The second tries the set of the first, and then loads from its
own. -/
def bothAuthors : Calls :=
  [(1, .create "AUTHOR" {}), (2, .create "AUTHOR" {}), (1, .load ⟨1, 0, "AUTHOR1"⟩ "EDITED"),
    (2, .load ⟨1, 0, "AUTHOR1"⟩ "EDITED"), (2, .load ⟨2, 0, "AUTHOR1"⟩ "BOOKS"), (1, .plan)]

/-- The output of a session when the database has no rows. -/
def emptyOutput? (h : Hub) (id : Nat) : Option Output :=
  (h.sessions id).bind fun q => (q.execute (fun _ => .ok []) h.schema).1.result.toOption

/-- The second accepts and finds its own authors, and not those of the first. -/
theorem sessions_isolated_press : Function.Injective (· + 5) ∧
    (Schema.press.hub.answers bothAuthors).handles 1 = [⟨1, 0, "AUTHOR1"⟩, ⟨1, 1, "BOOK2"⟩] ∧
    (Schema.press.hub.answers bothAuthors).handles 2 = [⟨2, 0, "AUTHOR1"⟩, ⟨2, 1, "BOOK2"⟩] ∧
    Isolated (· + 5) .press bothAuthors 1 ∧
    (Schema.press.hub.after bothAuthors).Accepts 2 ⟨2, 0, "AUTHOR1"⟩ ∧
    (Schema.press.hub.after bothAuthors).Rejects 2 ⟨1, 0, "AUTHOR1"⟩ ∧
    ∃ out ∈ emptyOutput? (Schema.press.hub.after bothAuthors) 2,
      (out.set? ⟨2, 0, "AUTHOR1"⟩).isSome ∧ out.set? ⟨1, 0, "AUTHOR1"⟩ = none ∧
        out.records ⟨1, 0, "AUTHOR1"⟩ = [] := by
  have hpress : Schema.press.Reachable := .ofLists _ _
  have hρ : Function.Injective (· + 5 : Nat → Nat) := fun _ _ h => Nat.add_right_cancel h
  have hgiven : (Schema.press.hub.answers bothAuthors).handles 2 =
      [⟨2, 0, "AUTHOR1"⟩, ⟨2, 1, "BOOK2"⟩] := by decide +kernel
  have hout : (emptyOutput? (Schema.press.hub.after bothAuthors) 2).isSome = true := by decide +kernel
  obtain ⟨out, hout⟩ := Option.isSome_iff_exists.1 hout
  obtain ⟨q, hq, hloaded⟩ := Option.bind_eq_some_iff.1 hout
  have hloaded := except_toOption_some hloaded
  have hsecond := sessions_isolated hpress hρ bothAuthors 2
  have hown : ⟨2, 0, "AUTHOR1"⟩ ∈ (Schema.press.hub.answers bothAuthors).handles 2 := by
    rw [hgiven]
    decide
  have hother : ⟨1, 0, "AUTHOR1"⟩ ∉ (Schema.press.hub.answers bothAuthors).handles 2 := by
    rw [hgiven]
    decide
  refine ⟨hρ, by decide +kernel, hgiven, sessions_isolated hpress hρ _ 1, hsecond.accepts _ hown,
    hsecond.rejects q hq _ hother, out, hout, ?_⟩
  exact ⟨(hsecond.found q hq _ out hloaded _).2 hown, hsecond.unseen q hq _ out hloaded _ hother⟩

end Hub

end GraphLoad
