/-
Joining further tables in between. A join that reads what two environments agree on makes the same of
both, so that they go on to agree; left joins of further tables, put anywhere among the joins of a
statement, therefore leave the rest of every environment as it is and lose none.
-/
import GraphLoad.Proofs.Sql.Scope
import GraphLoad.Proofs.Sql.Spans

namespace GraphLoad

namespace Sql

variable {db : Database} {env env' : Env} {aliases : List String} {j : Join} {js : List Join}
  {q q' base : Select}

/-! ## What a join reads -/

/-- Whether a join only reads what stands under some aliases. -/
def Join.Under (aliases : List String) (j : Join) : Prop :=
  ∀ e ∈ j.on, e.1.Under aliases ∧ e.2.Under aliases

/-- Whether a statement has what some joins read: each its own alias and those that stand before it. -/
def Select.Supports (q : Select) (js : List Join) : Prop :=
  ∀ pre j post, js = pre ++ j :: post → j.Under (j.aliasName :: (q.addJoins pre).aliases)

theorem Select.Supports.tail (h : q.Supports (j :: js)) : (q.addJoins [j]).Supports js := by
  rintro pre k post rfl
  have hunder := h (j :: pre) k post rfl
  simp only [addJoins, List.append_assoc, List.singleton_append] at hunder ⊢
  exact hunder

/-- What a statement joins first supports what it joins last. -/
theorem Select.Scoped.supports (h : q.Scoped) {pre post : List Join} (hjoins : q.joins = pre ++ post) :
    Select.Supports { q with joins := pre } post := by
  rintro before j after rfl e he
  have hon := h.on (pre ++ before) j after (by rw [hjoins, List.append_assoc]) e he
  refine ⟨hon.1.mono fun a ha => ?_, hon.2⟩
  rw [List.mem_singleton.1 ha]
  exact List.mem_cons_self ..

/-! ## Environments that agree -/

namespace Database

theorem eval_congr {x : Expr} (hx : x.Under aliases) (h : ∀ b ∈ aliases, env' b = env b) :
    x.eval db env' = x.eval db env := by
  cases x with
  | column aliasName name =>
    unfold Expr.eval
    dsimp only
    rw [h aliasName hx]
  | verbatim text => exact hx.elim

theorem joined_congr (hj : j.Under aliases) (h : ∀ b ∈ aliases, env' b = env b) :
    db.joined env' j.on = db.joined env j.on := by
  unfold joined
  rw [Bool.eq_iff_iff, List.all_eq_true, List.all_eq_true]
  refine forall₂_congr fun e he => ?_
  rw [eval_congr (hj e he).1 h, eval_congr (hj e he).2 h]

theorem bind_congr (h : ∀ b ∈ aliases, env' b = env b) (a : String) (o : Option Tuple) :
    ∀ b ∈ a :: aliases, env'.bind a o b = env.bind a o b := by
  intro b hb
  unfold Env.bind
  split
  · rfl
  · exact h b ((List.mem_cons.1 hb).resolve_left ‹_›)

/-- A join makes the same of environments that agree on what it reads. -/
theorem join_congr (hj : j.Under (j.aliasName :: aliases)) (h : ∀ b ∈ aliases, env' b = env b)
    {e : Env} (he : e ∈ db.join j env) :
    ∃ e' ∈ db.join j env', ∀ b ∈ j.aliasName :: aliases, e' b = e b := by
  have hpartners : ((db.tuples j.table).filter fun u =>
      db.joined (env'.bind j.aliasName (some u)) j.on) = (db.tuples j.table).filter fun u =>
      db.joined (env.bind j.aliasName (some u)) j.on :=
    List.filter_congr fun u _ => joined_congr hj (bind_congr h j.aliasName (some u))
  suffices hmade : ∃ o, e = env.bind j.aliasName o ∧ env'.bind j.aliasName o ∈ db.join j env' by
    obtain ⟨o, rfl, ho⟩ := hmade
    exact ⟨_, ho, bind_congr h j.aliasName o⟩
  unfold join at he ⊢
  rw [hpartners]
  dsimp only at he ⊢
  split at he
  · exact ⟨none, List.mem_singleton.1 he, List.mem_singleton_self _⟩
  · obtain ⟨u, hu, rfl⟩ := List.mem_map.1 he
    exact ⟨some u, rfl, List.mem_map_of_mem hu⟩

/-- Statements of which one widens the other go on so when both join the same. -/
theorem Widens.alongside (h : db.Widens base q) (hsupports : base.Supports js) :
    db.Widens (base.addJoins js) (q.addJoins js) := by
  induction js generalizing base q with
  | nil =>
    have hnil : ∀ q : Select, q.addJoins [] = q := fun q => by simp [Select.addJoins]
    rw [hnil, hnil]
    exact h
  | cons j js ih =>
    have hcons : ∀ q : Select, q.addJoins (j :: js) = (q.addJoins [j]).addJoins js := fun q => by
      simp [Select.addJoins]
    have hone : ∀ (q : Select) (env : Env),
        env ∈ db.envs (q.addJoins [j]) ↔ ∃ e ∈ db.envs q, env ∈ db.join j e := by
      intro q env
      rw [envs_addJoins, List.mem_flatMap]
      simp only [joinAll, List.flatMap_singleton']
    have hunder : j.Under (j.aliasName :: base.aliases) := by
      have hfirst := hsupports [] j js rfl
      simpa [Select.addJoins] using hfirst
    have haliases : ∀ b ∈ (base.addJoins [j]).aliases, b ∈ j.aliasName :: base.aliases := by
      intro b hb
      rw [Select.aliases_addJoins, List.map_singleton] at hb
      exact List.mem_cons.2 ((List.mem_append.1 hb).symm.imp List.mem_singleton.1 id)
    rw [hcons, hcons]
    refine ih ⟨fun env henv => ?_, fun env' henv' => ?_⟩ hsupports.tail
    · obtain ⟨e, he, henv⟩ := (hone base env).1 henv
      obtain ⟨e', he', hsame⟩ := h.keeps e he
      obtain ⟨env', henv', hagree⟩ := join_congr hunder hsame henv
      exact ⟨env', (hone q env').2 ⟨e', he', henv'⟩, fun b hb => hagree b (haliases b hb)⟩
    · obtain ⟨e', he', henv'⟩ := (hone q env').1 henv'
      obtain ⟨e, he, hsame⟩ := h.restricts e' he'
      obtain ⟨env, henv, hagree⟩ := join_congr hunder (fun b hb => (hsame b hb).symm) henv'
      exact ⟨env, (hone base env).2 ⟨e, he, henv⟩, fun b hb => (hagree b (haliases b hb)).symm⟩

/-- Left joins of further tables widen a statement, wherever they stand among its other joins. -/
theorem widens_insert {pre post : List Join} (hscope : q.Scoped) (hnodup : q'.aliases.Nodup)
    (hsource : q'.source = q.source) (hjoins : q.joins = pre ++ post)
    (hjoins' : q'.joins = pre ++ js ++ post) (hleft : ∀ j ∈ js, j.kind = .left) :
    db.Widens q q' := by
  let base : Select := { q with joins := pre }
  have hall : q'.aliases = (base.addJoins js).aliases ++ post.map Join.aliasName := by
    unfold Select.aliases
    rw [hjoins', hsource, List.map_append, ← List.append_assoc]
    rfl
  rw [hall] at hnodup
  have hinserted : db.Widens base (base.addJoins js) :=
    (Widens.refl db base).addJoins (fun _ hb => hb) (List.nodup_append.1 hnodup).1 hleft
  have hwidens := hinserted.alongside (hscope.supports hjoins)
  -- what a statement selects and demands plays no part in its environments
  have hq : db.envs (base.addJoins post) = db.envs q := envs_congr rfl hjoins.symm
  have hq' : db.envs ((base.addJoins js).addJoins post) = db.envs q' :=
    envs_congr hsource.symm hjoins'.symm
  have haliases : (base.addJoins post).aliases = q.aliases := by
    unfold Select.aliases
    rw [hjoins]
    rfl
  refine ⟨fun env henv => ?_, fun env' henv' => ?_⟩
  · obtain ⟨env', henv', hsame⟩ := hwidens.keeps env (by rw [hq]; exact henv)
    exact ⟨env', by rw [← hq']; exact henv', fun b hb => hsame b (by rw [haliases]; exact hb)⟩
  · obtain ⟨env, henv, hsame⟩ := hwidens.restricts env' (by rw [hq']; exact henv')
    exact ⟨env, by rw [← hq]; exact henv, fun b hb => hsame b (by rw [haliases]; exact hb)⟩

end Database

end Sql

end GraphLoad
