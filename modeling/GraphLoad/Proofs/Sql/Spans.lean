/-
What a statement brings together. Its aliases are joined edge by edge; a statement spans its edges if
whatever stands at the end of one is linked to what stands at its start, and all that is linked to
what stands at the start comes to stand at the end, with the first alias left as it was. Each join of
a further alias keeps it so.
-/
import GraphLoad.Proofs.Sql.Hops
import GraphLoad.Proofs.OrderedMap

namespace GraphLoad

namespace Sql

/-- Two aliases of a statement, and which rows of the first are linked to which of the second. -/
structure Edge where
  start : String
  stop : String
  links : Tuple → Tuple → Prop

variable {db : Database} {q q' base : Select} {anchor a b : String} {js : List Join}
  {edges : List Edge}

/-- The statement with further joins. -/
def Select.addJoins (q : Select) (js : List Join) : Select := { q with joins := q.joins ++ js }

theorem Select.aliases_addJoins (q : Select) (js : List Join) :
    (q.addJoins js).aliases = q.aliases ++ js.map Join.aliasName := by
  simp only [aliases, addJoins, List.map_append, List.append_assoc]

namespace Database

theorem envs_addJoins (db : Database) (q : Select) (js : List Join) :
    db.envs (q.addJoins js) = (db.envs q).flatMap (db.joinAll js) := by
  unfold envs Select.addJoins
  cases q.source with
  | none => rfl
  | some source =>
    simp only [List.flatMap_assoc]
    exact congrArg (List.flatMap · _) (funext fun u => joinAll_append db q.joins js _)

/-- The environments of a statement do not depend on what it selects, demands and orders by. -/
theorem envs_congr (hsource : q'.source = q.source) (hjoins : q'.joins = q.joins) :
    db.envs q' = db.envs q := by
  unfold envs
  rw [hsource, hjoins]

/-- What stands in a statement are rows of tables. -/
theorem envs_keeps {P : Tuple → Prop} (hP : ∀ table, ∀ u ∈ db.tuples table, P u) :
    ∀ env ∈ db.envs q, ∀ b u, env b = some u → P u := by
  intro env henv
  unfold envs at henv
  split at henv
  · cases henv
  · obtain ⟨u, hu, henv⟩ := List.mem_flatMap.1 henv
    refine joinAll_keeps hP (Env.bind_keeps (fun b v hv => ?_) fun v hv => ?_) henv
    · cases hv
    · cases hv
      exact hP _ u hu

/-- A statement whose environments are those of `base` but for aliases that `base` does not have. -/
structure Widens (db : Database) (base q : Select) : Prop where
  keeps : ∀ env ∈ db.envs base, ∃ env' ∈ db.envs q, ∀ b ∈ base.aliases, env' b = env b
  restricts : ∀ env' ∈ db.envs q, ∃ env ∈ db.envs base, ∀ b ∈ base.aliases, env' b = env b

theorem Widens.refl (db : Database) (q : Select) : db.Widens q q :=
  ⟨fun env h => ⟨env, h, fun _ _ => rfl⟩, fun env h => ⟨env, h, fun _ _ => rfl⟩⟩

/-- Left joins of new aliases widen a statement. -/
theorem Widens.addJoins (h : db.Widens base q) (hknown : ∀ b ∈ base.aliases, b ∈ q.aliases)
    (hnodup : (q.addJoins js).aliases.Nodup) (hleft : ∀ j ∈ js, j.kind = .left) :
    db.Widens base (q.addJoins js) := by
  rw [Select.aliases_addJoins] at hnodup
  have hnew : ∀ b ∈ base.aliases, b ∉ js.map Join.aliasName := fun b hb hmem =>
    (List.nodup_append.1 hnodup).2.2 b (hknown b hb) b hmem rfl
  constructor
  · intro env henv
    obtain ⟨env₁, h₁, heq⟩ := h.keeps env henv
    obtain ⟨env', h'⟩ := exists_mem_joinAll hleft env₁
    refine ⟨env', ?_, fun b hb => ?_⟩
    · rw [envs_addJoins]
      exact List.mem_flatMap.2 ⟨env₁, h₁, h'⟩
    · rw [joinAll_of_not_mem h' (hnew b hb), heq b hb]
  · intro env' henv'
    rw [envs_addJoins] at henv'
    obtain ⟨env₁, h₁, h'⟩ := List.mem_flatMap.1 henv'
    obtain ⟨env, henv, heq⟩ := h.restricts env₁ h₁
    refine ⟨env, henv, fun b hb => ?_⟩
    rw [joinAll_of_not_mem h' (hnew b hb), heq b hb]

/-- Environments in which the ends of all edges stand for what their links say. -/
structure Spans (anchor : String) (edges : List Edge) (envs : List Env) : Prop where
  sound : ∀ e ∈ edges, ∀ env ∈ envs, ∀ y, env e.stop = some y →
    ∃ x, env e.start = some x ∧ e.links x y
  complete : ∀ e ∈ edges, ∀ env ∈ envs, ∀ x y, env e.start = some x → e.links x y →
    ∃ env' ∈ envs, env' anchor = env anchor ∧ env' e.start = some x ∧ env' e.stop = some y

theorem spans_nil (anchor : String) (envs : List Env) : Spans anchor [] envs :=
  ⟨fun _ h => (nomatch h), fun _ h => nomatch h⟩

/-- The way to a further alias adds its edge, unless it is an inner one and loses others. -/
theorem Spans.addJoins (h : Spans anchor edges (db.envs q)) (hanchor : anchor ∈ q.aliases)
    (hedges : ∀ e ∈ edges, e.start ∈ q.aliases ∧ e.stop ∈ q.aliases) (ha : a ∈ q.aliases)
    (hway : IsWay a b js) (hnodup : (q.addJoins js).aliases.Nodup)
    (hleft : edges = [] ∨ ∀ j ∈ js, j.kind = .left) :
    Spans anchor (edges ++ [⟨a, b, db.Leads a js⟩]) (db.envs (q.addJoins js)) := by
  rw [Select.aliases_addJoins] at hnodup
  have hnew : ∀ c ∈ q.aliases, c ∉ js.map Join.aliasName := fun c hc hmem =>
    (List.nodup_append.1 hnodup).2.2 c hc c hmem rfl
  have hpath : (a :: js.map Join.aliasName).Nodup :=
    List.nodup_cons.2 ⟨hnew a ha, (List.nodup_append.1 hnodup).2.1⟩
  rw [envs_addJoins]
  constructor
  case sound =>
    intro e he env' henv' y hy
    obtain ⟨env, henv, hjoin⟩ := List.mem_flatMap.1 henv'
    rcases List.mem_append.1 he with he | he
    · obtain ⟨hstart, hstop⟩ := hedges e he
      rw [joinAll_of_not_mem hjoin (hnew _ hstop)] at hy
      obtain ⟨x, hx, hlinks⟩ := h.sound e he env henv y hy
      exact ⟨x, by rw [joinAll_of_not_mem hjoin (hnew _ hstart), hx], hlinks⟩
    · rw [List.mem_singleton.1 he] at hy ⊢
      obtain ⟨x, hx, hlead⟩ := leads_of_mem_joinAll hway hpath hjoin hy
      exact ⟨x, by rw [joinAll_of_not_mem hjoin (hnew a ha), hx], hlead⟩
  case complete =>
    intro e he env' henv' x y hx hlinks
    obtain ⟨env, henv, hjoin⟩ := List.mem_flatMap.1 henv'
    rcases List.mem_append.1 he with he | he
    · -- what stood at both ends before is kept by left joins
      obtain ⟨hstart, hstop⟩ := hedges e he
      rw [joinAll_of_not_mem hjoin (hnew _ hstart)] at hx
      obtain ⟨env₁, h₁, hsame, hx₁, hy₁⟩ := h.complete e he env henv x y hx hlinks
      have hkinds : ∀ j ∈ js, j.kind = .left := by
        rcases hleft with rfl | hleft
        · cases he
        · exact hleft
      obtain ⟨final, hfinal⟩ : ∃ final, final ∈ db.joinAll js env₁ :=
        exists_mem_joinAll hkinds env₁
      refine ⟨final, List.mem_flatMap.2 ⟨env₁, h₁, hfinal⟩, ?_, ?_, ?_⟩
      · rw [joinAll_of_not_mem hfinal (hnew _ hanchor), hsame,
          joinAll_of_not_mem hjoin (hnew _ hanchor)]
      · rw [joinAll_of_not_mem hfinal (hnew _ hstart), hx₁]
      · rw [joinAll_of_not_mem hfinal (hnew _ hstop), hy₁]
    · -- the new edge is met by the environment that stood at its start before the joins
      rw [List.mem_singleton.1 he] at hx hlinks ⊢
      rw [joinAll_of_not_mem hjoin (hnew a ha)] at hx
      obtain ⟨final, hfinal, hy⟩ := mem_joinAll_of_leads hway hpath hx hlinks
      refine ⟨final, List.mem_flatMap.2 ⟨env, henv, hfinal⟩, ?_, ?_, hy⟩
      · rw [joinAll_of_not_mem hfinal (hnew _ hanchor), joinAll_of_not_mem hjoin (hnew _ hanchor)]
      · rw [joinAll_of_not_mem hfinal (hnew a ha), hx]

end Database

end Sql

end GraphLoad
