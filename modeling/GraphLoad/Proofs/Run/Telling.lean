/-
What the links of a plan say. A command says of every row that it is loaded from that its property is
a collection, if it is one, and of every two rows that its relationship links what the one is to the
other. Linking the rows of a chain, and giving every object of its source a collection, says this of
the commands of the chain and nothing else.
-/
import GraphLoad.Proofs.Run.Mirror

namespace GraphLoad

open Sql

/-- What command `i` says of a row of the set it is loaded from and of a row, or none, of its own:
the one is related to the other and, where the way back holds one object, the other to the one. -/
def Plan.Says (plan : Plan) (i : Nat) (c p : Command) (r : Relation) (x : Tuple) (y : Option Tuple)
    (f : Fact) : Prop :=
  Said r.isMany (p.entity.identityOf x) r.property (y.map c.entity.identityOf) f ∨
    ∃ b z, Relation.backProperty (plan.reverse? i) = some b ∧ y = some z ∧
      Said false (c.entity.identityOf z) b (some (p.entity.identityOf x)) f

/-- What command `i` says over a database. -/
def Plan.Told (plan : Plan) (db : Database) (t : CommandTree) (i : Nat) (f : Fact) : Prop :=
  ∃ c o p x y, t.get? i = some c ∧ c.origin = some o ∧ t.get? o.parent = some p ∧
    Reach db t o.parent x ∧
    (∀ z, y = some z → db.Linked o.relation p.aliasName c.aliasName x z) ∧
    plan.Says i c p o.relation x y f

namespace Run

variable {db : Database} {t : CommandTree} {plan : Plan} {chain : Chain} {q : Select} {E : Env → Prop}
  {F T : Fact → Prop} {done : List Command} {rows : List Row} {run run' : Run} {c p : Command}
  {o : Origin} {ident : Nat → Option Identity}

/-! ## Rows and environments -/

/-- A row says what its environment does. -/
theorem rowSays_iff {env : Env} {row : Row} (h : Holds db q ident done env row) (hc : c ∈ done)
    (hp : p ∈ done) (r : Relation) (i : Nat) (f : Fact) :
    r.RowSays p.aliasName c.aliasName (Relation.backProperty (plan.reverse? i)) ident row f ↔
      ∃ x, env p.aliasName = some x ∧ plan.Says i c p r x (env c.aliasName) f := by
  obtain ⟨oc, hoc, hcident⟩ := h.objects c hc
  obtain ⟨op, hop, hpident⟩ := h.objects p hp
  have htarget : oc.bind ident = (env c.aliasName).map c.entity.identityOf := by
    cases oc with
    | none =>
      rw [Option.map_none, eq_comm, Option.map_eq_none_iff] at hcident
      rw [hcident]
      rfl
    | some k =>
      obtain ⟨z, hz, hk⟩ := Option.map_eq_some_iff.1 hcident.symm
      rw [hz, Option.map_some, Option.bind_some, hk]
  unfold Relation.RowSays Plan.Says
  constructor
  · rintro ⟨k, x', target, hk, hx', htgt, hsaid⟩
    rw [hop] at hk
    cases hk
    rw [hoc] at htgt
    cases htgt
    obtain ⟨x, hx, hkx⟩ := Option.map_eq_some_iff.1 hpident.symm
    rw [hx'] at hkx
    cases hkx
    rw [htarget] at hsaid
    refine ⟨x, hx, hsaid.imp_right ?_⟩
    rintro ⟨b, k', y', hb, rfl, hy', hf⟩
    obtain ⟨z, hz, hkz⟩ := Option.map_eq_some_iff.1 hcident.symm
    rw [hy'] at hkz
    cases hkz
    exact ⟨b, z, hb, hz, hf⟩
  · rintro ⟨x, hx, hsaid⟩
    rw [hx, Option.map_some] at hpident
    obtain ⟨k, rfl, hk⟩ := Option.map_eq_some_iff.1 hpident
    refine ⟨k, _, oc, hop, hk, hoc, ?_⟩
    rw [htarget]
    refine hsaid.imp_right ?_
    rintro ⟨b, z, hb, hz, hf⟩
    rw [hz, Option.map_some] at hcident
    obtain ⟨k', hk', hident⟩ := Option.map_eq_some_iff.1 hcident
    exact ⟨b, k', _, hb, hk', hident, hf⟩

/-- Rows say what the environments say that they come from. -/
theorem rowsSay_iff (h : Mirrors db q ident done E rows) (hc : c ∈ done) (hp : p ∈ done)
    (r : Relation) (i : Nat) (f : Fact) :
    (∃ row ∈ rows, r.RowSays p.aliasName c.aliasName (Relation.backProperty (plan.reverse? i)) ident
      row f) ↔
      ∃ env x, E env ∧ env p.aliasName = some x ∧ plan.Says i c p r x (env c.aliasName) f := by
  constructor
  · rintro ⟨row, hrow, hsays⟩
    obtain ⟨env, henv, hholds⟩ := h.sound row hrow
    obtain ⟨x, hx, hsays⟩ := (rowSays_iff hholds hc hp r i f).1 hsays
    exact ⟨env, x, henv, hx, hsays⟩
  · rintro ⟨env, x, henv, hx, hsays⟩
    obtain ⟨row, hrow, hholds⟩ := h.complete env henv
    exact ⟨row, hrow, (rowSays_iff hholds hc hp r i f).2 ⟨x, hx, hsays⟩⟩

/-! ## Linking the sets of a chain -/

/-- What environments say of a command. -/
def EnvsSay (plan : Plan) (t : CommandTree) (E : Env → Prop) (c : Command) (f : Fact) : Prop :=
  ∃ o p env x, c.origin = some o ∧ t.get? o.parent = some p ∧ E env ∧ env p.aliasName = some x ∧
    plan.Says c.id c p o.relation x (env c.aliasName) f

theorem linkSet_shows (hl : Relation.Showing ident F run.store)
    (hmirrors : Mirrors db q ident done E rows) (hc : c ∈ done)
    (hparent : ∀ o p, c.origin = some o → t.get? o.parent = some p → p ∈ done)
    (htree : plan.tree = t) (hpolicy : plan.settings.conflicts = .error)
    (hT : ObjectStore.Compatible T) (hF : ∀ f, F f ∨ EnvsSay plan t E c f → T f)
    (hlink : linkSet plan rows c run = .ok ⟨⟩ run') :
    Relation.Showing ident (fun f => F f ∨ EnvsSay plan t E c f) run'.store ∧
      run'.sets = run.sets := by
  rcases linkSet_ok hlink with ⟨hnone, rfl⟩ | ⟨o, p, l, ho, hp, hl', hstore, hsets, -⟩
  · -- nothing is said of a set that is not loaded from another one
    refine ⟨⟨hl.wf, hl.ident, hl.shows.iff fun f => ⟨fun hf => hf.resolve_right ?_, .inl⟩⟩, rfl⟩
    rintro ⟨o, p, -, -, ho, hp, -⟩
    exact hnone o p ho (by rw [htree]; exact hp)
  · rw [htree] at hp
    rw [hpolicy] at hl'
    have hpdone := hparent o p ho hp
    have hvalid : ∀ d ∈ done, ∀ row ∈ rows, row.Valid run.store d.aliasName := by
      intro d hd row hrow
      obtain ⟨env, -, hholds⟩ := hmirrors.sound row hrow
      rw [← funext hl.ident] at hholds
      exact hholds.valid hd
    have hiff : ∀ f, (F f ∨ ∃ row ∈ rows, o.relation.RowSays p.aliasName c.aliasName
        (Relation.backProperty (plan.reverse? c.id)) ident row f) ↔
          F f ∨ EnvsSay plan t E c f := by
      intro f
      rw [rowsSay_iff hmirrors hc hpdone]
      refine or_congr_right ⟨?_, ?_⟩
      · rintro ⟨env, x, henv, hx, hsays⟩
        exact ⟨o, p, env, x, ho, hp, henv, hx, hsays⟩
      · rintro ⟨o', p', env, x, ho', hp', henv, hx, hsays⟩
        rw [ho] at ho'
        cases ho'
        rw [hp] at hp'
        cases hp'
        exact ⟨env, x, henv, hx, hsays⟩
    have hshows := Relation.link_shows (l := { store := run.store }) hl (hvalid p hpdone) (hvalid c hc)
      hT (fun f hf => hF f ((hiff f).1 hf)) hl'
    rw [← hstore] at hshows
    exact ⟨⟨hshows.wf, hshows.ident, hshows.shows.iff fun f => (hiff f).symm⟩, hsets⟩

theorem linkSets_shows {commands : List Command} (hl : Relation.Showing ident F run.store)
    (hmirrors : Mirrors db q ident done E rows) (hdone : ∀ c ∈ commands, c ∈ done)
    (hparents : ∀ c ∈ commands, ∀ o p, c.origin = some o → t.get? o.parent = some p → p ∈ done)
    (htree : plan.tree = t) (hpolicy : plan.settings.conflicts = .error)
    (hT : ObjectStore.Compatible T)
    (hF : ∀ f, (F f ∨ ∃ c ∈ commands, EnvsSay plan t E c f) → T f)
    (hlinks : commands.forM (linkSet plan rows) run = .ok ⟨⟩ run') :
    Relation.Showing ident (fun f => F f ∨ ∃ c ∈ commands, EnvsSay plan t E c f) run'.store ∧
      run'.sets = run.sets := by
  refine forM_builds (P := fun pre r => Relation.Showing ident
    (fun f => F f ∨ ∃ c ∈ pre, EnvsSay plan t E c f) r.store ∧ r.sets = run.sets) ?step
    ⟨⟨hl.wf, hl.ident, hl.shows.iff fun f => ?start⟩, rfl⟩ hlinks
  case start => simp
  case step =>
    rintro pre c post hsplit r r' ⟨hr, hsets⟩ hlink
    have hc : c ∈ commands := hsplit ▸ List.mem_append_right _ (List.mem_cons_self ..)
    have hiff : ∀ f, ((F f ∨ ∃ d ∈ pre, EnvsSay plan t E d f) ∨ EnvsSay plan t E c f) ↔
        F f ∨ ∃ d ∈ pre ++ [c], EnvsSay plan t E d f := by
      intro f
      simp only [List.mem_append, List.mem_singleton, or_and_right, exists_or, exists_eq_left,
        or_assoc]
    have hall : ∀ d ∈ pre ++ [c], d ∈ commands := by
      intro d hd
      rcases List.mem_append.1 hd with hd | hd
      · exact hsplit ▸ List.mem_append_left _ hd
      · rw [List.mem_singleton.1 hd]
        exact hc
    obtain ⟨hshows, hsets'⟩ := linkSet_shows hr hmirrors (hdone c hc) (hparents c hc) htree hpolicy hT
      (fun f hf => hF f (((hiff f).1 hf).imp_right fun ⟨d, hd, hsaid⟩ => ⟨d, hall d hd, hsaid⟩)) hlink
    exact ⟨⟨hshows.wf, hshows.ident, hshows.shows.iff fun f => (hiff f).symm⟩, hsets'.trans hsets⟩

/-! ## All that a chain says -/

/-- That the property of a chain's root is a collection of every row of its source. -/
def Collected (db : Database) (t : CommandTree) (shape : ChainShape) (f : Fact) : Prop :=
  ∃ s p r x, shape.source = some s ∧ t.get? s = some p ∧
    (t.get? shape.root).bind Command.relation = some r ∧ r.isMany = true ∧ Reach db t s x ∧
    f = .many (p.entity.identityOf x) r.property

theorem says_none {i : Nat} {r : Relation} {x : Tuple} {f : Fact}
    (h : plan.Says i c p r x none f) :
    r.isMany = true ∧ f = .many (p.entity.identityOf x) r.property := by
  rcases h with hsaid | ⟨b, z, -, hnone, -⟩
  · cases hsaid with
    | many hmany => exact ⟨hmany, rfl⟩
    | link _ htarget => cases htarget
    | one _ htarget => cases htarget
  · cases hnone

/-- What the environments of a chain say, with the collections of its source, is what its commands
say. -/
theorem told_iff {shape : ChainShape} (ht : t.Ordered) (hshape : shape ∈ t.chainsFrom 0)
    (hbrings : Plan.Brings db t shape E) (f : Fact) :
    ((∃ c ∈ shape.commands.filterMap t.get?, EnvsSay plan t E c f) ∨ Collected db t shape f) ↔
      ∃ i ∈ shape.commands, plan.Told db t i f := by
  constructor
  · rintro (⟨c, hc, o, p, env, x, ho, hp, henv, hx, hsays⟩ | ⟨s, p, r, x, hs, hp, hr, hmany, hx, rfl⟩)
    · obtain ⟨i, hi, hget⟩ := List.mem_filterMap.1 hc
      rw [ht.ids hget] at hsays
      have hreach : Reach db t o.parent x := by
        rcases CommandTree.parent_of_mem ht hshape hi hget ho with ⟨-, hsource⟩ | ⟨hmem, -⟩
        · obtain ⟨x', hx', hr⟩ := hbrings.source _ p hsource hp env henv
          rw [hx] at hx'
          cases hx'
          exact hr
        · exact (hbrings.sets _ hmem p hp x).1 ⟨env, henv, hx⟩
      refine ⟨i, hi, c, o, p, x, env c.aliasName, hget, ho, hp, hreach, fun z hz => ?_, hsays⟩
      exact ((hbrings.links i hi c o p hget ho hp x z).1 ⟨env, henv, hx, hz⟩).2
    · obtain ⟨root, hroot, hrelation⟩ := Option.bind_eq_some_iff.1 hr
      obtain ⟨o, ho, rfl⟩ := Option.map_eq_some_iff.1 hrelation
      have hparent := CommandTree.source_eq hshape hroot
      rw [hs, Command.parent, ho] at hparent
      cases hparent
      have hmem : shape.root ∈ shape.commands :=
        CommandTree.root_mem_commands hshape
      exact ⟨shape.root, hmem, root, o, p, x, none, hroot, ho, hp, hx,
        fun z hz => (Option.some_ne_none z hz.symm).elim, .inl (.many hmany)⟩
  · rintro ⟨i, hi, c, o, p, x, y, hget, ho, hp, hx, hlinked, hsays⟩
    have hc : c ∈ shape.commands.filterMap t.get? := List.mem_filterMap.2 ⟨i, hi, hget⟩
    rw [← ht.ids hget] at hsays
    cases y with
    | some z =>
      obtain ⟨env, henv, hpx, hcz⟩ :=
        (hbrings.links i hi c o p hget ho hp x z).2 ⟨hx, hlinked z rfl⟩
      exact .inl ⟨c, hc, o, p, env, x, ho, hp, henv, hpx, by rw [hcz]; exact hsays⟩
    | none =>
      -- without a target only the collection itself is said, for the source by the step after linking
      obtain ⟨hmany, rfl⟩ := says_none hsays
      rcases CommandTree.parent_of_mem ht hshape hi hget ho with ⟨rfl, hsource⟩ | ⟨hmem, -⟩
      · refine .inr ⟨o.parent, p, o.relation, x, hsource, hp, ?_, hmany, hx, rfl⟩
        rw [hget, Option.bind_some, Command.relation, ho, Option.map_some]
      · obtain ⟨env, henv, hpx⟩ := (hbrings.sets _ hmem p hp x).2 hx
        exact .inl ⟨c, hc, o, p, env, x, ho, hp, henv, hpx, .inl (.many hmany)⟩

end Run

end GraphLoad
