/-
Calls of a session take place as a whole or not at all. Main statement: in every session in use, a call
that fails leaves the tree and the active command as they were, though it writes to both where they
stand; one that loads adds a single command, of which nothing is asked yet, and makes it the active one;
and one that changes what is asked changes it of the active command only.

A session that is worked on in place cannot go back. Loading writes the tree and the active command
before it looks for the handle that it gives out, so what makes it atomic is that this last look never
fails: the command that has just been written is there.
-/
import GraphLoad.Proofs.Session.Consistency

namespace GraphLoad

/-! ## Calls in place -/

/-- Computations that work on a session where it stands, next to its schema: what they have written
stays written when they fail. -/
abbrev Editing := EStateM LoadError (Session × Schema)

namespace Session

/-- Looks something up, in the session and on its schema. -/
def look {α : Type} (x : Session → Resolving α) : Editing α := fun (q, s) =>
  match x q s with
  | .ok a s' => .ok a (q, s')
  | .error e s' => .error e (q, s')

/-- Writes to the session. -/
def write (f : Session → Session) : Editing Unit := fun (q, s) => .ok ⟨⟩ (f q, s)

/-- Loads from a set in place: the tree grows, then the new command becomes the active one, and then its
handle is looked up. -/
def loadInPlace (source : SetRef) (relationship : String) : Editing Reply := do
  let parent ← look fun q => lift (q.owned source)
  let relation ← look fun _ => Schema.relation parent.entity.name relationship
  let (tree, added) ← look fun q => lift (q.tree.add source.command relation)
  write fun q => { q with tree }
  write fun q => { q with active := added }
  look fun q => lift ((q.handOut "command without set").map Prod.snd)

/-- Changes what is asked of the active set in place, once what is to be written has been read. -/
def changeInPlace (c : Change) : Editing Reply := do
  let f ← look fun _ => lift c.effect
  write fun q => q.modify f
  return .changed

/-- Plans, which writes nothing. -/
def planInPlace : Editing Reply := do
  let p ← look Session.plan
  return .plan p

end Session

/-- A call of a session that is open, in place. -/
def Ask.inPlace : Ask → Option (Editing Reply)
  | .create .. => none
  | .load source relationship => some (Session.loadInPlace source relationship)
  | .change c => some (Session.changeInPlace c)
  | .plan => some Session.planInPlace

/-- What a call on a copy leaves in the place of the session: the copy if it succeeds, and the session if
it fails. -/
def Session.settle (q : Session) : EStateM.Result LoadError Schema (Session × Reply) →
    EStateM.Result LoadError (Session × Schema) Reply
  | .ok (q', reply) s => .ok reply (q', s)
  | .error e s => .error e (q, s)

namespace Session

section
variable {α β : Type} {x : Session → Resolving α} {f : α → Editing β} {q : Session} {s s' : Schema}

theorem look_bind_of_ok {a : α} (h : x q s = .ok a s') : (look x >>= f) (q, s) = f a (q, s') := by
  apply step_bind_of_ok
  simp only [look, h]

theorem look_bind_of_error {e : LoadError} (h : x q s = .error e s') :
    (look x >>= f) (q, s) = .error e (q, s') := by
  apply step_bind_of_error
  simp only [look, h]

end

variable {q : Session} {id : Nat}

/-- In place loading fails before it writes, or not at all. -/
theorem loadInPlace_eq (q : Session) (s : Schema) (source : SetRef) (name : String) :
    loadInPlace source name (q, s) =
      q.settle ((q.load source name >>= fun q => lift (q.handOut "command without set")) s) := by
  unfold loadInPlace
  cases howned : q.owned source with
  | error e =>
    have hload : q.load source name s = .error e s := by rw [load, howned]; rfl
    have hlook : (lift (q.owned source) : Resolving Command) s = .error e s := by rw [howned]; rfl
    rw [look_bind_of_error hlook, step_bind_of_error hload]
    rfl
  | ok c =>
    have hlook : (lift (q.owned source) : Resolving Command) s = .ok c s := by rw [howned]; rfl
    rw [look_bind_of_ok hlook]
    cases hrelation : Schema.relation c.entity.name name s with
    | error e s₁ =>
      have hload : q.load source name s = .error e s₁ := by
        rw [load, howned]
        exact step_bind_of_error hrelation _
      rw [look_bind_of_error hrelation, step_bind_of_error hload]
      rfl
    | ok r s₁ =>
      have hload : q.load source name s = (do
          let (tree, added) ← lift (q.tree.add source.command r)
          return { q with tree, active := added } : Resolving Session) s₁ := by
        rw [load, howned]
        exact step_bind_of_ok hrelation _
      rw [look_bind_of_ok hrelation]
      cases hadd : q.tree.add source.command r with
      | error e =>
        rw [hadd] at hload
        have hlook : (lift (q.tree.add source.command r) : Resolving (CommandTree × Nat)) s₁ =
            .error e s₁ := by rw [hadd]; rfl
        rw [look_bind_of_error hlook, step_bind_of_error hload]
        rfl
      | ok grown =>
        rw [hadd] at hload
        have hlook : (lift (q.tree.add source.command r) : Resolving (CommandTree × Nat)) s₁ =
            .ok grown s₁ := by rw [hadd]; rfl
        rw [look_bind_of_ok hlook, step_bind_of_ok hload]
        obtain ⟨tree, added⟩ := grown
        obtain ⟨-, -, -, rfl, rfl⟩ := CommandTree.add_ok hadd
        -- the tree and the active command are written now; the handle is there
        have hhand : ∃ handle, (q.extend source.command r).handOut "command without set" =
            .ok (q.extend source.command r, .set handle) := by
          rw [handOut, activeSet?_extend]
          exact ⟨_, rfl⟩
        obtain ⟨handle, hhand⟩ := hhand
        change look (fun q => lift ((q.handOut "command without set").map Prod.snd))
            (q.extend source.command r, s₁) =
          q.settle (lift ((q.extend source.command r).handOut "command without set") s₁)
        simp only [look, hhand]
        rfl

end Session

/-- A call in place leaves what it leaves when it is made on a copy that takes the place of the session
only if the call succeeds. -/
theorem Ask.inPlace_eq {ask : Ask} {y : Editing Reply} (hy : ask.inPlace = some y) (id : Nat)
    (q : Session) : ∃ x, ask.act id (some q) = some x ∧ ∀ s, y (q, s) = q.settle (x s) := by
  cases ask with
  | create => cases hy
  | load source name =>
    cases hy
    exact ⟨_, rfl, fun s => q.loadInPlace_eq s source name⟩
  | change c =>
    cases hy
    refine ⟨_, rfl, fun s => ?_⟩
    rw [Session.change_effect, Session.changeInPlace]
    cases c.effect <;> rfl
  | plan =>
    cases hy
    refine ⟨_, rfl, fun s => ?_⟩
    unfold Session.planInPlace
    cases hplan : q.plan s with
    | error e s' =>
      rw [Session.look_bind_of_error hplan, step_bind_of_error hplan]
      rfl
    | ok p s' =>
      rw [Session.look_bind_of_ok hplan, step_bind_of_ok hplan]
      rfl

/-! ## What is left -/

namespace Session

/-- `q'` is `q` with one more command, loaded along `r` from the command `parent`, whose only trace among
the others is that this one lists it last; it is the active one, and nothing is asked of it. -/
structure Adds (q : Session) (parent : Nat) (r : Relation) (q' : Session) : Prop where
  settings : q'.settings = q.settings
  session : q'.tree.session = q.tree.session
  source : parent < q.tree.size
  size : q'.tree.size = q.tree.size + 1
  kept : ∀ i c, q.tree.get? i = some c →
    q'.tree.get? i = some (if i = parent then c.addChild q.tree.size else c)
  added : ∃ c, q'.tree.get? q.tree.size = some c ∧ c.id = q.tree.size ∧ c.entity = r.target ∧
    c.origin = some ⟨parent, r⟩ ∧ c.children = [] ∧ c.modifiers = {}
  active : q'.active = q.tree.size

/-- `q'` is `q` with other modifiers of the active command. -/
structure Alters (q : Session) (f : Modifiers → Modifiers) (q' : Session) : Prop where
  settings : q'.settings = q.settings
  session : q'.tree.session = q.tree.session
  size : q'.tree.size = q.tree.size
  commands : ∀ i c, q.tree.get? i = some c →
    q'.tree.get? i = some (if i = q.active then { c with modifiers := f c.modifiers } else c)
  active : q'.active = q.active

theorem extend_adds (q : Session) {parent : Nat} (r : Relation) (hparent : parent < q.tree.size) :
    q.Adds parent r (q.extend parent r) := by
  have hnewest : (q.extend parent r).tree.get? q.tree.size =
      some (q.tree.newest r.target (some ⟨parent, r⟩)) := by
    show (q.tree.push r.target _).get? q.tree.size = _
    rw [CommandTree.get?_push, if_pos rfl]
  constructor
  case settings => rfl
  case session => rfl
  case source => exact hparent
  case size =>
    show (q.tree.push r.target _).size = _
    simp [CommandTree.push, CommandTree.size]
  case kept =>
    intro i c hc
    show (q.tree.push r.target _).get? i = _
    rw [CommandTree.get?_push_of_some hc, CommandTree.grownBy, Option.map_some]
    simp only [Option.some.injEq, eq_comm]
  case added => exact ⟨_, hnewest, rfl, rfl, rfl, rfl, rfl⟩
  case active => rfl

theorem modify_alters (q : Session) (f : Modifiers → Modifiers) : q.Alters f (q.modify f) := by
  constructor
  case settings => rfl
  case session => rfl
  case size =>
    show (q.tree.modify q.active f).size = _
    simp [CommandTree.modify, CommandTree.size]
  case commands =>
    intro i c hc
    show (q.tree.modify q.active f).get? i = _
    rw [CommandTree.get?_modify, hc, Option.map_some]
    simp only [eq_comm]
  case active => rfl

end Session

namespace Hub

/-- A session of which every call takes place as a whole or not at all. -/
structure Atomic (h : Hub) (id : Nat) (q : Session) : Prop where
  consistent : q.Consistent
  /-- A call that fails changes no session. -/
  fails : ∀ ask e, (h.ask id ask).2 = some (.error e) → (h.ask id ask).1.sessions = h.sessions
  /-- Where it works in place, it has written nothing; -/
  undone : ∀ ask y, ask.inPlace = some y → ∀ e q' s, y (q, h.schema) = .error e (q', s) →
    q' = q ∧ h.ask id ask = (⟨s, h.sessions⟩, some (.error e))
  /-- and if it succeeds, it has written what it is to leave. -/
  done : ∀ ask y, ask.inPlace = some y → ∀ reply q' s, y (q, h.schema) = .ok reply (q', s) →
    h.ask id ask = (⟨s, Function.update h.sessions id (some q')⟩, some (.ok reply))
  /-- Loading adds one command and hands it out. -/
  loads : ∀ source name reply, (h.ask id (.load source name)).2 = some (.ok reply) → ∃ c r q' handle,
    q.owned source = .ok c ∧ h.schema.build c.entity.name name = .ok r ∧
      (h.ask id (.load source name)).1.sessions id = some q' ∧ q.Adds source.command r q' ∧
      q'.activeSet? = some handle ∧ reply = .set handle
  /-- A change alters what is asked of the active command, and that in the part it is about. -/
  changes : ∀ c reply, (h.ask id (.change c)).2 = some (.ok reply) → ∃ f q',
    c.effect = .ok f ∧ (h.ask id (.change c)).1.sessions id = some q' ∧ q.Alters f q' ∧
      ∀ m, c.Sets m (f m)

variable {h : Hub} {id : Nat} {q : Session}

/-- A call that succeeds leaves its effect. -/
theorem InOrder.ask_effect (hh : h.InOrder) {ask : Ask} {reply : Reply}
    (hreply : (h.ask id ask).2 = some (.ok reply)) :
    ∃ q', (h.ask id ask).1.sessions id = some q' ∧
      ask.Effect h.schema id (h.sessions id) q' reply := by
  rcases h.ask_cases id ask with ⟨-, heq⟩ | ⟨x, hx, ⟨e, s', -, heq⟩ | ⟨q', answered, s', hstep, heq⟩⟩
  · rw [heq] at hreply
    cases hreply
  · rw [heq] at hreply
    cases hreply
  · rw [heq] at hreply ⊢
    cases hreply
    exact ⟨q', Function.update_self .., Ask.act_effect hh.coherent hx hstep⟩

/-- Either a call in place fails before it has written anything, and the hub fails too, or it leaves what
the hub puts in the place of the session. -/
theorem ask_inPlace (hq : h.sessions id = some q) {ask : Ask} {y : Editing Reply}
    (hy : ask.inPlace = some y) :
    (∃ e s, y (q, h.schema) = .error e (q, s) ∧ h.ask id ask = (⟨s, h.sessions⟩, some (.error e))) ∨
      ∃ reply q' s, y (q, h.schema) = .ok reply (q', s) ∧
        h.ask id ask = (⟨s, Function.update h.sessions id (some q')⟩, some (.ok reply)) := by
  obtain ⟨x, hx, hsettle⟩ := Ask.inPlace_eq hy id q
  rw [← hq] at hx
  rcases h.ask_cases id ask with ⟨hnone, -⟩ | ⟨x', hx', hcases⟩
  · rw [hx] at hnone
    cases hnone
  · rw [hx] at hx'
    cases hx'
    rcases hcases with ⟨e, s, hstep, heq⟩ | ⟨q', reply, s, hstep, heq⟩
    · exact .inl ⟨e, s, by rw [hsettle, hstep, Session.settle], heq⟩
    · exact .inr ⟨reply, q', s, by rw [hsettle, hstep, Session.settle], heq⟩

/-- In every session in use calls are atomic. -/
theorem calls_atomic (hreached : h.Reached) (hq : q ∈ h.sessions id) : h.Atomic id q := by
  have hh := hreached.inOrder
  have hsession : h.sessions id = some q := hq
  constructor
  case consistent => exact hreached.consistent hq
  case fails =>
    intro ask e he
    rcases h.ask_cases id ask with ⟨-, heq⟩ |
      ⟨x, -, ⟨e', s', -, heq⟩ | ⟨q', reply, s', -, heq⟩⟩
    · rw [heq]
    · rw [heq]
    · rw [heq] at he
      cases he
  case undone =>
    intro ask y hy e q' s herror
    obtain ⟨e', s', hfailed, heq⟩ | ⟨reply, q', s', hdone, -⟩ := ask_inPlace hsession hy
    · rw [hfailed] at herror
      cases herror
      exact ⟨rfl, heq⟩
    · rw [hdone] at herror
      cases herror
  case done =>
    intro ask y hy reply q' s hleft
    obtain ⟨e, s', hfailed, -⟩ | ⟨reply', q'', s', hdone, heq⟩ := ask_inPlace hsession hy
    · rw [hfailed] at hleft
      cases hleft
    · rw [hdone] at hleft
      cases hleft
      exact heq
  case loads =>
    intro source name reply hreply
    obtain ⟨q', hq', heffect⟩ := hh.ask_effect hreply
    rw [hsession] at heffect
    cases heffect with
    | load howned hbuild hactive =>
      have hparent := CommandTree.get?_lt (Session.owned_eq_ok howned).1
      exact ⟨_, _, _, _, howned, hbuild, hq', q.extend_adds _ hparent, hactive, rfl⟩
  case changes =>
    intro c reply hreply
    obtain ⟨q', hq', heffect⟩ := hh.ask_effect hreply
    rw [hsession] at heffect
    cases heffect with
    | change hf => exact ⟨_, _, hf, hq', q.modify_alters _, Session.Change.effect_sets hf⟩

/-- Calls of sessions in use leave sessions in use. -/
theorem Reached.after (hreached : h.Reached) (calls : Calls) : (h.after calls).Reached := by
  induction calls generalizing h with
  | nil => exact hreached
  | cons call calls ih => exact ih (hreached.asked call.1 call.2)

/-- Authors with their books. An order that nobody can read, and a set that nobody has given out, leave the
session as it is; a limit is one of the books, which are the active set. -/
theorem calls_atomic_press : (Schema.press.hub.after bothAuthors).Reached ∧
    ∃ q ∈ (Schema.press.hub.after bothAuthors).sessions 2,
      (Schema.press.hub.after bothAuthors).Atomic 2 q ∧ q.tree.size = 2 ∧ q.active = 1 ∧
      (((Schema.press.hub.after bothAuthors).ask 2 (.change (.orderByClause "id sideways"))).2.any
        fun answer => !answer.isOk) = true ∧
      (((Schema.press.hub.after bothAuthors).ask 2 (.load ⟨2, 7, "BOOK8"⟩ "BOOKS")).2.any
        fun answer => !answer.isOk) = true ∧
      ((((Schema.press.hub.after bothAuthors).ask 2 (.change (.limit 3))).1.sessions 2).map fun q =>
        q.tree.commands.map fun c => c.modifiers.page.limit) = some [none, some 3] := by
  have hreached : (Schema.press.hub.after bothAuthors).Reached := by
    apply Reached.after
    exact .opened (.ofLists _ _)
  have hopen : (((Schema.press.hub.after bothAuthors).sessions 2).any fun q =>
      decide (q.tree.size = 2 ∧ q.active = 1)) = true := by
    decide +kernel
  obtain ⟨q, hq, hfacts⟩ := (Option.any_eq_true _ _).1 hopen
  obtain ⟨hsize, hactive⟩ := of_decide_eq_true hfacts
  exact ⟨hreached, q, hq, calls_atomic hreached hq, hsize, hactive, by decide +kernel,
    by decide +kernel, by decide +kernel⟩

end Hub

end GraphLoad
