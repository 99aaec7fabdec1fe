/-
The relationships that a schema keeps. Beside it stands a ledger, which keeps none: it makes every
relationship anew from the definition registered last, and only notes which names have been resolved.
Main statement: after any calls a schema answers as the ledger does, so that what has been resolved or
registered under other names never shows; it refuses a registration exactly for the names noted, and
nothing that fails leaves a trace.
-/
import GraphLoad.Proofs.Schema.Reverse

namespace GraphLoad

namespace Schema

variable {s s' : Schema} {entity name : String}

/-! ## Single calls -/

/-- In a coherent schema a relationship is the one that would be made now, and is there afterwards. -/
theorem relation_eq (hs : s.Coherent) (entity name : String) :
    relation entity name s = match s.build entity name with
      | .ok r => .ok r { s with resolved := s.resolved.insert (entity, name) r }
      | .error e => .error e s := by
  unfold relation
  rw [step_bind_of_ok (show (get : Resolving Schema) s = .ok s s from rfl)]
  cases hget : s.resolved.get? (entity, name) with
  | some r =>
    rw [hs entity name r hget]
    dsimp only
    rw [OrderedMap.insert_of_get? hget]
    rfl
  | none => cases hbuild : s.build entity name <;> rfl

theorem answer_relation (hs : s.Coherent) (entity name : String) :
    answer (relation entity name) s = s.build entity name := by
  unfold answer
  rw [relation_eq hs]
  cases s.build entity name <;> rfl

theorem register_eq (s : Schema) (entity : String) (definition : RelationDefinition) :
    register entity definition s = match s.entity entity with
      | .error e => .error e s
      | .ok _ =>
        if s.resolved.contains (entity, definition.name) then
          .error (.invalidMapping entity definition.name "relationship already resolved") s
        else .ok ⟨⟩ (s.define entity definition) := by
  unfold register
  rw [step_bind_of_ok (show (get : Resolving Schema) s = .ok s s from rfl)]
  cases s.entity entity with
  | error e => rfl
  | ok found => cases s.resolved.contains (entity, definition.name) <;> rfl

theorem register_error {definition : RelationDefinition} {e : LoadError}
    (h : register entity definition s = .error e s') : s' = s := by
  rw [register_eq] at h
  split at h
  · cases h
    rfl
  · split at h
    · cases h
      rfl
    · cases h

end Schema

/-! ## Ledgers -/

/-- What is known of a schema without the relationships that it keeps: its entities, the definitions
registered last, and the names under which a relationship has been resolved. -/
structure Ledger where
  catalog : Catalog
  definitions : OrderedMap (String × String) RelationDefinition
  resolved : List (String × String) := []

/-- What is asked of a schema. -/
inductive Call
  | register (entity : String) (definition : RelationDefinition)
  | relation (entity name : String)
  | reverse (r : Relation)
  | plan (tree : CommandTree) (settings : Settings)

namespace Ledger

/-- The relationship of a name on an entity, made anew. -/
def build (l : Ledger) (entity name : String) : Except LoadError Relation :=
  Relation.build l.catalog entity name (l.definitions.get? (entity, name))

/-- The ledger after a look-up: the name is noted if there is a relationship. -/
def note (l : Ledger) (entity name : String) : Ledger :=
  match l.build entity name with
  | .ok _ => { l with resolved := l.resolved ++ [(entity, name)] }
  | .error _ => l

/-- What a registration answers: it is for a known entity, and refused once the relationship of that
name has been resolved. -/
def accept (l : Ledger) (entity : String) (definition : RelationDefinition) : Except LoadError Unit :=
  match l.catalog.entity entity with
  | .error e => .error e
  | .ok _ =>
    if l.resolved.contains (entity, definition.name) then
      .error (.invalidMapping entity definition.name "relationship already resolved")
    else .ok ()

/-- A registration for a known entity is refused for a name that is noted, and for no other. -/
theorem accept_eq {l : Ledger} {entity : String} (definition : RelationDefinition)
    (hknown : (l.catalog.entity entity).isOk = true) : l.accept entity definition =
      if l.resolved.contains (entity, definition.name) then
        .error (.invalidMapping entity definition.name "relationship already resolved")
      else .ok () := by
  unfold accept
  cases hentity : l.catalog.entity entity with
  | error e =>
    rw [hentity] at hknown
    cases hknown
  | ok found => rfl

/-- The ledger after a registration. -/
def register (l : Ledger) (entity : String) (definition : RelationDefinition) : Ledger :=
  match l.accept entity definition with
  | .ok _ => { l with definitions := l.definitions.insert (entity, definition.name) definition }
  | .error _ => l

/-- The ledger after the ways back of some commands were looked up, one after the other, up to the
first command that cannot be planned. -/
def plan (l : Ledger) : List Command → Ledger
  | [] => l
  | command :: rest =>
    match command.modifiers.projection.resolve command.entity, command.origin with
    | .error _, _ => l
    | .ok _, none => l.plan rest
    | .ok _, some origin =>
      let there := origin.relation
      match l.build there.target.name there.reverseName with
      | .ok _ => (l.note there.target.name there.reverseName).plan rest
      | .error e =>
        if e.code = .unknownRelationship ∨ there.reverseDeclared = false then l.plan rest else l

/-- The ledger after a call. -/
def after (l : Ledger) : Call → Ledger
  | .register entity definition => l.register entity definition
  | .relation entity name => l.note entity name
  | .reverse r => l.note r.target.name r.reverseName
  | .plan tree _ => l.plan tree.commands

end Ledger

namespace Schema

/-- The schema that a call leaves, whichever way it ends. -/
def after (s : Schema) : Call → Schema
  | .register entity definition => leaves (register entity definition) s
  | .relation entity name => leaves (relation entity name) s
  | .reverse r => leaves (reverse r) s
  | .plan tree settings => leaves (Plan.make tree settings) s

/-- A schema that has come to where a ledger is. -/
structure Tracks (s : Schema) (l : Ledger) : Prop where
  catalog : s.catalog = l.catalog
  definitions : s.definitions = l.definitions
  resolved : ∀ key, s.resolved.contains key = true ↔ key ∈ l.resolved
  coherent : s.Coherent

variable {s : Schema} {l : Ledger} {entity name : String}

theorem Tracks.build_eq (h : s.Tracks l) (entity name : String) :
    s.build entity name = l.build entity name := by
  rw [build, h.catalog, h.definitions]
  rfl

theorem Coherent.insert {r : Relation} (hs : s.Coherent) (hr : s.build entity name = .ok r) :
    Coherent { s with resolved := s.resolved.insert (entity, name) r } := by
  intro entity' name' r' hget
  rw [OrderedMap.get?_insert] at hget
  split at hget
  · rename_i heq
    cases heq
    cases hget
    exact hr
  · exact hs entity' name' r' hget

/-- A look-up answers what the ledger makes anew. -/
theorem Tracks.relation (h : s.Tracks l) (entity name : String) :
    answer (Schema.relation entity name) s = l.build entity name ∧
      (leaves (Schema.relation entity name) s).Tracks (l.note entity name) := by
  refine ⟨by rw [answer_relation h.coherent, h.build_eq], ?_⟩
  unfold leaves Ledger.note
  rw [relation_eq h.coherent, ← h.build_eq]
  cases hbuild : s.build entity name with
  | error e => exact h
  | ok r =>
    refine ⟨h.catalog, h.definitions, fun key => ?_, h.coherent.insert hbuild⟩
    show (s.resolved.insert (entity, name) r).contains key = true ↔ key ∈ l.resolved ++ [(entity, name)]
    rw [OrderedMap.contains_iff_mem_keys, OrderedMap.mem_keys_insert,
      ← OrderedMap.contains_iff_mem_keys, h.resolved, List.mem_append, List.mem_singleton, or_comm]

/-- A registration is accepted as the ledger says. What has been resolved so far goes by other names,
and is none the worse for it. -/
theorem Tracks.register (h : s.Tracks l) (entity : String) (definition : RelationDefinition) :
    answer (Schema.register entity definition) s = l.accept entity definition ∧
      (leaves (Schema.register entity definition) s).Tracks (l.register entity definition) := by
  have hnoted : l.resolved.contains (entity, definition.name) =
      s.resolved.contains (entity, definition.name) := by
    rw [Bool.eq_iff_iff, List.contains_iff_mem]
    exact (h.resolved _).symm
  unfold answer leaves Ledger.register Ledger.accept
  rw [register_eq, Schema.entity, h.catalog]
  cases l.catalog.entity entity with
  | error e => exact ⟨rfl, h⟩
  | ok found =>
    dsimp only
    rw [hnoted]
    by_cases hresolved : s.resolved.contains (entity, definition.name) = true
    · rw [if_pos hresolved, if_pos hresolved]
      exact ⟨rfl, h⟩
    · rw [if_neg hresolved, if_neg hresolved]
      refine ⟨rfl, h.catalog, by rw [← h.definitions]; rfl, h.resolved, fun entity' name' r hr => ?_⟩
      have hkept : s.resolved.get? (entity', name') = some r := hr
      rw [← h.coherent entity' name' r hkept]
      unfold build define
      rw [OrderedMap.get?_insert_of_ne]
      intro heq
      cases heq
      rw [OrderedMap.contains, hkept] at hresolved
      exact hresolved rfl

/-! ## Planning -/

theorem resolveReverse_eq (hs : s.Coherent) (r : Relation) :
    Plan.resolveReverse r s = match s.build r.target.name r.reverseName with
      | .ok back =>
        .ok (some back) { s with resolved := s.resolved.insert (r.target.name, r.reverseName) back }
      | .error e =>
        if e.code = .unknownRelationship ∨ r.reverseDeclared = false then .ok none s
        else .error e s := by
  unfold Plan.resolveReverse reverse
  rw [relation_eq hs]
  cases s.build r.target.name r.reverseName <;> rfl

theorem resolveCommand_eq (s : Schema) (c : Command) :
    Plan.resolveCommand c s = match c.modifiers.projection.resolve c.entity, c.origin with
      | .error e, _ => .error e s
      | .ok fields, none => .ok (fields, none) s
      | .ok fields, some o =>
        match Plan.resolveReverse o.relation s with
        | .ok back s' => .ok (fields, back) s'
        | .error e s' => .error e s' := by
  unfold Plan.resolveCommand
  cases c.modifiers.projection.resolve c.entity with
  | error e => rfl
  | ok fields =>
    rw [step_bind_of_ok (show (lift (.ok fields) : Resolving (List String)) s = .ok fields s from rfl)]
    cases c.origin with
    | none => rfl
    | some o =>
      dsimp only
      cases hback : Plan.resolveReverse o.relation s with
      | ok back s' => rw [step_bind_of_ok hback]; rfl
      | error e s' => rw [step_bind_of_error hback]

/-- The ways back of commands are looked up as the ledger notes. -/
theorem Tracks.commands (h : s.Tracks l) (commands : List Command) :
    (leaves (commands.mapM Plan.resolveCommand) s).Tracks (l.plan commands) := by
  induction commands generalizing s l with
  | nil => exact h
  | cons c rest ih =>
    rw [leaves_mapM_cons, resolveCommand_eq, Ledger.plan]
    cases c.modifiers.projection.resolve c.entity with
    | error e => exact h
    | ok fields =>
      cases c.origin with
      | none => exact ih h
      | some o =>
        have hback := (h.relation o.relation.target.name o.relation.reverseName).2
        unfold leaves at hback
        dsimp only
        rw [relation_eq h.coherent] at hback
        rw [resolveReverse_eq h.coherent, ← h.build_eq]
        cases hbuild : s.build o.relation.target.name o.relation.reverseName with
        | ok back =>
          rw [hbuild] at hback
          exact ih hback
        | error e =>
          dsimp only
          by_cases hpassed : e.code = .unknownRelationship ∨ o.relation.reverseDeclared = false
          · rw [if_pos hpassed, if_pos hpassed]
            exact ih h
          · rw [if_neg hpassed, if_neg hpassed]
            exact h

/-- Planning leaves what looking up its ways back leaves, whether or not its statements compile. -/
theorem leaves_make (tree : CommandTree) (settings : Settings) (s : Schema) :
    leaves (Plan.make tree settings) s = leaves (tree.commands.mapM Plan.resolveCommand) s := by
  unfold Plan.make
  rw [leaves_bind]
  cases answer (tree.commands.mapM Plan.resolveCommand) s with
  | error e => rfl
  | ok resolved =>
    dsimp only
    rw [leaves_bind, answer_lift, leaves_lift]
    split <;> rfl

/-! ## Histories -/

/-- Every call takes a schema to where it takes the ledger. -/
theorem Tracks.after (h : s.Tracks l) (call : Call) : (s.after call).Tracks (l.after call) := by
  cases call with
  | register entity definition => exact (h.register entity definition).2
  | relation entity name => exact (h.relation entity name).2
  | reverse r => exact (h.relation r.target.name r.reverseName).2
  | plan tree settings =>
    show (leaves (Plan.make tree settings) s).Tracks _
    rw [leaves_make]
    exact h.commands tree.commands

theorem Tracks.history (h : s.Tracks l) (calls : List Call) :
    (calls.foldl Schema.after s).Tracks (calls.foldl Ledger.after l) := by
  induction calls generalizing s l with
  | nil => exact h
  | cons call calls ih => exact ih (h.after call)

theorem resolved_ofLists (entities : List Entity) (definitions : List (String × RelationDefinition)) :
    (ofLists entities definitions).resolved = .empty := by
  suffices h : ∀ s : Schema, s.resolved = .empty →
      (definitions.foldl (fun s d => s.define d.1 d.2) s).resolved = .empty from h _ rfl
  induction definitions with
  | nil => exact fun _ h => h
  | cons d definitions ih => exact fun s hs => ih _ hs

/-- The ledger of a schema of which nothing has been asked. -/
def ledger (s : Schema) : Ledger := { catalog := s.catalog, definitions := s.definitions }

theorem tracks_ofLists (entities : List Entity) (definitions : List (String × RelationDefinition)) :
    (ofLists entities definitions).Tracks (ofLists entities definitions).ledger := by
  have hresolved := resolved_ofLists entities definitions
  refine ⟨rfl, rfl, fun key => ?_, fun entity name r hr => ?_⟩
  · simp [OrderedMap.contains, hresolved, ledger]
  · rw [hresolved] at hr
    cases hr

/-! ## Computations that do not see what is kept -/

/-- The schema of which nothing has been asked. -/
def fresh (s : Schema) : Schema := { catalog := s.catalog, definitions := s.definitions }

theorem fresh_coherent (s : Schema) : s.fresh.Coherent := fun _ _ _ h => nomatch h

theorem Resolves.fresh {s s' : Schema} (h : Resolves s s') : s'.fresh = s.fresh := by
  rw [Schema.fresh, Schema.fresh, h.catalog, h.definitions]

/-- A computation that only resolves relationships, and answers as if none had been resolved. -/
structure Uncached {α : Type} (x : Resolving α) : Prop where
  moves : Moves Resolves x
  answers : ∀ s : Schema, s.Coherent → answer x s = answer x s.fresh

namespace Uncached

variable {α β : Type}

theorem pure (a : α) : Uncached (Pure.pure a : Resolving α) := ⟨Moves.pure .refl a, fun _ _ => rfl⟩

theorem lift (x : Except LoadError α) : Uncached (GraphLoad.lift x : Resolving α) :=
  ⟨Moves.lift .refl x, fun _ _ => by rw [answer_lift, answer_lift]⟩

theorem bind {x : Resolving α} {f : α → Resolving β} (hx : Uncached x) (hf : ∀ a, Uncached (f a)) :
    Uncached (x >>= f) := by
  refine ⟨Moves.bind .trans hx.moves fun a => (hf a).moves, fun s hs => ?_⟩
  rw [answer_bind, answer_bind, hx.answers s hs]
  cases answer x s.fresh with
  | error e => rfl
  | ok a =>
    -- both ways lead to schemas that differ in what they keep alone
    have hleft := hx.moves.leaves s
    have hright := hx.moves.leaves s.fresh
    dsimp only
    rw [(hf a).answers _ (hleft.coherent hs), (hf a).answers _ (hright.coherent s.fresh_coherent),
      hleft.fresh, hright.fresh]
    rfl

theorem mapM {f : α → Resolving β} (hf : ∀ a, Uncached (f a)) :
    ∀ xs : List α, Uncached (xs.mapM f)
  | [] => by
    rw [List.mapM_nil]
    exact pure []
  | x :: xs => by
    rw [List.mapM_cons]
    exact (hf x).bind fun y => (mapM hf xs).bind fun ys => pure (y :: ys)

end Uncached

theorem uncached_relation (entity name : String) : Uncached (relation entity name) := by
  refine ⟨fun s => ?_, fun s hs => ?_⟩
  · cases h : relation entity name s with
    | ok r s' => exact (relation_ok h).1
    | error e s' =>
      rw [relation_error h]
      exact .refl s
  · rw [answer_relation hs, answer_relation s.fresh_coherent]
    rfl

theorem uncached_resolveReverse (r : Relation) : Uncached (Plan.resolveReverse r) := by
  have hreverse := uncached_relation r.target.name r.reverseName
  refine ⟨fun s => ?_, fun s hs => ?_⟩
  · have hmoves := hreverse.moves s
    unfold Plan.resolveReverse reverse
    cases h : relation r.target.name r.reverseName s with
    | ok back s' =>
      rw [h] at hmoves
      exact hmoves
    | error e s' =>
      rw [h] at hmoves
      dsimp only
      split <;> exact hmoves
  · have hanswer : ∀ s : Schema, s.Coherent → answer (Plan.resolveReverse r) s =
        match s.build r.target.name r.reverseName with
        | .ok back => .ok (some back)
        | .error e =>
          if e.code = .unknownRelationship ∨ r.reverseDeclared = false then .ok none
          else .error e := by
      intro s hs
      unfold answer
      rw [resolveReverse_eq hs]
      cases s.build r.target.name r.reverseName with
      | ok back => rfl
      | error e =>
        by_cases hpassed : e.code = .unknownRelationship ∨ r.reverseDeclared = false
        · simp only [if_pos hpassed]
        · simp only [if_neg hpassed]
    rw [hanswer s hs, hanswer s.fresh s.fresh_coherent]
    rfl

theorem uncached_make (tree : CommandTree) (settings : Settings) :
    Uncached (Plan.make tree settings) := by
  refine (Uncached.mapM (fun c => ?_) tree.commands).bind fun resolved =>
    (Uncached.lift _).bind fun chains => .pure _
  refine (Uncached.lift _).bind fun fields => ?_
  split
  · exact .pure _
  · exact (uncached_resolveReverse _).bind fun back => .pure _

/-! ## Any history -/

/-- A schema answers as its ledger does: what it keeps does not show, a registration for a known
entity is refused exactly for a name that has been resolved, and what fails leaves the schema as it
was, so that a definition registered afterwards is the one that counts. -/
structure Transparent (s : Schema) (l : Ledger) : Prop where
  relation : ∀ entity name, answer (Schema.relation entity name) s = l.build entity name
  reverse : ∀ r, answer (Schema.reverse r) s = l.build r.target.name r.reverseName
  plan : ∀ tree settings, answer (Plan.make tree settings) s =
    answer (Plan.make tree settings) { catalog := l.catalog, definitions := l.definitions }
  register : ∀ entity definition,
    answer (Schema.register entity definition) s = l.accept entity definition
  refused : ∀ entity definition, (l.catalog.entity entity).isOk = true →
    ((answer (Schema.register entity definition) s).isOk = false ↔
      (entity, definition.name) ∈ l.resolved)
  rejected : ∀ entity definition e, answer (Schema.register entity definition) s = .error e →
    s.after (.register entity definition) = s
  failed : ∀ entity name e, answer (Schema.relation entity name) s = .error e →
    s.after (.relation entity name) = s ∧
      ∀ definition, definition.name = name → (l.catalog.entity entity).isOk = true →
        answer (Schema.register entity definition) s = .ok ⟨⟩ ∧
          answer (Schema.relation entity name) (s.after (.register entity definition)) =
            Relation.build l.catalog entity name (some definition)

theorem Tracks.build_of_mem (h : s.Tracks l) {key : String × String} (hkey : key ∈ l.resolved) :
    ∃ r, l.build key.1 key.2 = .ok r := by
  have hcontains := (h.resolved key).2 hkey
  rw [OrderedMap.contains, Option.isSome_iff_exists] at hcontains
  obtain ⟨r, hr⟩ := hcontains
  exact ⟨r, by rw [← h.build_eq]; exact h.coherent key.1 key.2 r hr⟩

theorem Tracks.transparent (h : s.Tracks l) : s.Transparent l := by
  have hregister := fun entity definition => (h.register entity definition).1
  constructor
  case relation => exact fun entity name => (h.relation entity name).1
  case reverse => exact fun r => (h.relation r.target.name r.reverseName).1
  case plan =>
    intro tree settings
    rw [(uncached_make tree settings).answers s h.coherent, fresh, h.catalog, h.definitions]
  case register => exact hregister
  case refused =>
    intro entity definition hknown
    rw [hregister, Ledger.accept_eq definition hknown, ← List.contains_iff_mem]
    split
    · exact ⟨fun _ => ‹_›, fun _ => rfl⟩
    · exact ⟨nofun, fun hmem => (‹¬ _› hmem).elim⟩
  case rejected =>
    exact fun entity definition e he => register_error (step_of_answer_error he)
  case failed =>
    intro entity name e he
    refine ⟨relation_error (step_of_answer_error he), ?_⟩
    rintro definition rfl hknown
    have haccepted : l.accept entity definition = .ok ⟨⟩ := by
      have hnew : (entity, definition.name) ∉ l.resolved := by
        intro hmem
        obtain ⟨r, hr⟩ := h.build_of_mem hmem
        rw [(h.relation entity definition.name).1, hr] at he
        cases he
      rw [Ledger.accept_eq definition hknown]
      exact if_neg fun hmem => hnew (List.contains_iff_mem.1 hmem)
    have hnext := (h.register entity definition).2
    refine ⟨(hregister entity definition).trans haccepted, ?_⟩
    rw [Schema.after, (hnext.relation entity definition.name).1, Ledger.register, haccepted]
    show Relation.build l.catalog entity definition.name
      ((l.definitions.insert (entity, definition.name) definition).get? _) = _
    rw [OrderedMap.get?_insert_self]

/-- After any calls, in any order, a schema answers as its ledger does. -/
theorem cache_transparent (entities : List Entity) (definitions : List (String × RelationDefinition))
    (calls : List Call) : (calls.foldl Schema.after (.ofLists entities definitions)).Transparent
      (calls.foldl Ledger.after (Schema.ofLists entities definitions).ledger) :=
  ((tracks_ofLists entities definitions).history calls).transparent

/-- The books that an author has reviewed, which are found by their editor. -/
def reviewed : RelationDefinition where
  name := "REVIEWED"
  target := some "BOOK"
  mapping := some (.direct [("id", "editor_id")])

/-- Authors and the books they have edited, of which the press knows. -/
def edits : CommandTree :=
  match press.build "AUTHOR" "EDITED" with
  | .ok r => (CommandTree.start 1 author).push r.target (some ⟨0, r⟩)
  | .error _ => .start 1 author

/-- No relationship of authors is known by the name; it is registered, and a plan is made. -/
def dealings : List Call :=
  [.relation "AUTHOR" "REVIEWED", .register "AUTHOR" reviewed, .plan edits {}]

/-- What failed was not kept; what planning looked up on its way was. -/
theorem cache_transparent_press :
    let s := dealings.foldl Schema.after press
    (answer (Schema.relation "AUTHOR" "REVIEWED") press).isOk = false ∧
      answer (Schema.relation "AUTHOR" "REVIEWED") s =
        Relation.build press.catalog "AUTHOR" "REVIEWED" (some reviewed) ∧
      (answer (Schema.relation "AUTHOR" "REVIEWED") s).isOk = true ∧
      (answer (Schema.register "BOOK" { name := "AUTHOR1" }) press).isOk = true ∧
      (answer (Schema.register "BOOK" { name := "AUTHOR1" }) s).isOk = false := by
  have hs := cache_transparent [author, book] [("AUTHOR", edited)] dealings
  dsimp only
  refine ⟨by decide +kernel, ?_, by decide +kernel, by decide +kernel, ?_⟩
  · rw [show press = .ofLists [author, book] [("AUTHOR", edited)] from rfl, hs.relation]
    have hdefinition : (dealings.foldl Ledger.after press.ledger).definitions.get?
        ("AUTHOR", "REVIEWED") = some reviewed := by decide +kernel
    have hcatalog : (dealings.foldl Ledger.after press.ledger).catalog = press.catalog := by rfl
    show (dealings.foldl Ledger.after press.ledger).build "AUTHOR" "REVIEWED" = _
    rw [Ledger.build, hdefinition, hcatalog]
    rfl
  · exact (hs.refused "BOOK" { name := "AUTHOR1" } (by decide +kernel)).2 (by decide +kernel)

end Schema

end GraphLoad
