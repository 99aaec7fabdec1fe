/-
Joins that each lead from one alias to a new one. A way of such joins gives its last alias a partner
of a partner of what its first one stands for, or nothing; where it leads, it can be taken. Aliases
that are not joined keep what they stand for, and left joins lose no environment.
-/
import GraphLoad.Proofs.Sql.Denotation
import Mathlib.Data.List.Nodup

namespace GraphLoad

namespace Sql

/-- A join of a new alias to `a`: its equalities read the new alias on the left, `a` or the new alias
on the right, and `a` at least once. -/
structure IsHop (a : String) (j : Join) : Prop where
  joined : ∀ e ∈ j.on, ∃ name, e.1 = .column j.aliasName name
  met : ∀ e ∈ j.on, ∃ b name, e.2 = .column b name ∧ (b = a ∨ b = j.aliasName)
  touches : ∃ e ∈ j.on, ∃ name, e.2 = .column a name

/-- Joins that lead from `a`, each from the alias of the one before it, to `b`. -/
def IsWay (a b : String) : List Join → Prop
  | [] => a = b
  | j :: js => IsHop a j ∧ IsWay j.aliasName b js

/-- A join as one of another kind. -/
def Join.as (kind : JoinKind) (j : Join) : Join := { j with kind }

theorem isWay_as {kind : JoinKind} {a b : String} {js : List Join} (h : IsWay a b js) :
    IsWay a b (js.map (·.as kind)) := by
  induction js generalizing a with
  | nil => exact h
  | cons j js ih => exact ⟨⟨h.1.joined, h.1.met, h.1.touches⟩, ih h.2⟩

theorem aliases_as (kind : JoinKind) (js : List Join) :
    (js.map (·.as kind)).map Join.aliasName = js.map Join.aliasName := by
  rw [List.map_map]
  rfl

/-- A way ends at one of its aliases. -/
theorem IsWay.mem_aliases {a b : String} {js : List Join} (h : IsWay a b js) :
    b ∈ a :: js.map Join.aliasName := by
  induction js generalizing a with
  | nil => rw [show a = b from h]; exact List.mem_cons_self ..
  | cons j js ih => exact List.mem_cons_of_mem _ (ih h.2)

/-- A way that is not empty ends at an alias that is joined. -/
theorem IsWay.mem_joined {a b : String} {js : List Join} (h : IsWay a b js) (hne : js ≠ []) :
    b ∈ js.map Join.aliasName := by
  cases js with
  | nil => exact (hne rfl).elim
  | cons j js => exact h.2.mem_aliases

namespace Database

variable {db : Database} {env env' : Env} {a b : String} {j : Join} {js : List Join}

/-- Whether two rows are partners in a join of a new alias to `a`. -/
def partners (db : Database) (a : String) (j : Join) (x y : Tuple) : Bool :=
  db.joined ((Env.empty.bind a (some x)).bind j.aliasName (some y)) j.on

/-- Whether joins from `a` lead from one row to another, from partner to partner. -/
def Leads (db : Database) : String → List Join → Tuple → Tuple → Prop
  | _, [], x, y => x = y
  | a, j :: js, x, y => ∃ w ∈ db.tuples j.table, db.partners a j x w = true ∧
      db.Leads j.aliasName js w y

theorem leads_as {kind : JoinKind} {x y : Tuple} :
    db.Leads a (js.map (·.as kind)) x y ↔ db.Leads a js x y := by
  induction js generalizing a x with
  | nil => rfl
  | cons j js ih =>
    refine exists_congr fun w => and_congr_right fun _ => and_congr_right fun _ => ?_
    exact ih

/-! ## One join -/

theorem joined_eq_partners (hj : IsHop a j) (hne : a ≠ j.aliasName) {x y : Tuple}
    (ha : env a = some x) (hy : env j.aliasName = some y) :
    db.joined env j.on = db.partners a j x y := by
  have heval : ∀ b, b = a ∨ b = j.aliasName → ∀ name, Expr.eval db env (.column b name) =
      Expr.eval db ((Env.empty.bind a (some x)).bind j.aliasName (some y)) (.column b name) := by
    rintro b (rfl | rfl) name
    · simp only [Expr.eval, ha, Env.bind_of_ne _ hne, Env.bind_self]
    · simp only [Expr.eval, hy, Env.bind_self]
  unfold partners joined
  rw [Bool.eq_iff_iff, List.all_eq_true, List.all_eq_true]
  refine forall₂_congr fun e he => ?_
  obtain ⟨name, hleft⟩ := hj.joined e he
  obtain ⟨b, name', hright, hb⟩ := hj.met e he
  rw [hleft, hright, heval _ (.inr rfl), heval _ hb]

/-- Nothing is a partner of nothing. -/
theorem joined_of_none (hj : IsHop a j) (ha : env a = none) : db.joined env j.on = false := by
  obtain ⟨e, he, name, hright⟩ := hj.touches
  rw [joined, List.all_eq_false]
  refine ⟨e, he, ?_⟩
  simp [hright, Expr.eval, ha, equality, Value.isNull]

theorem join_ok (h : env' ∈ db.join j env) :
    (∃ u ∈ db.tuples j.table, db.joined (env.bind j.aliasName (some u)) j.on = true ∧
        env' = env.bind j.aliasName (some u)) ∨
      (j.kind = .left ∧ env' = env.bind j.aliasName none) := by
  unfold join at h
  dsimp only at h
  split at h
  · rename_i hkind _
    exact .inr ⟨hkind, List.mem_singleton.1 h⟩
  · obtain ⟨u, hu, rfl⟩ := List.mem_map.1 h
    obtain ⟨htable, hon⟩ := List.mem_filter.1 hu
    exact .inl ⟨u, htable, hon, rfl⟩

theorem mem_join {u : Tuple} (hu : u ∈ db.tuples j.table)
    (hon : db.joined (env.bind j.aliasName (some u)) j.on = true) :
    env.bind j.aliasName (some u) ∈ db.join j env := by
  have hmem : u ∈ (db.tuples j.table).filter
      fun u => db.joined (env.bind j.aliasName (some u)) j.on := List.mem_filter.2 ⟨hu, hon⟩
  unfold join
  dsimp only
  split
  · rename_i hnil
    rw [hnil] at hmem
    cases hmem
  · exact List.mem_map_of_mem (f := fun u => env.bind j.aliasName (some u)) hmem

theorem exists_mem_join (hleft : j.kind = .left) (env : Env) : ∃ env', env' ∈ db.join j env := by
  unfold join
  dsimp only
  split
  · exact ⟨_, List.mem_singleton_self _⟩
  · rename_i hno
    obtain ⟨u, hu⟩ := List.exists_mem_of_ne_nil _ fun hnil => hno hleft hnil
    exact ⟨_, List.mem_map_of_mem hu⟩

/-! ## Joins one after the other -/

theorem joinAll_append (db : Database) (js ks : List Join) (env : Env) :
    db.joinAll (js ++ ks) env = (db.joinAll js env).flatMap (db.joinAll ks) := by
  induction js generalizing env with
  | nil => simp [joinAll]
  | cons j js ih =>
    rw [List.cons_append, joinAll, joinAll, List.flatMap_assoc]
    exact congrArg (List.flatMap · _) (funext fun e => ih e)

theorem joinAll_cons_ok (h : env' ∈ db.joinAll (j :: js) env) :
    (∃ u ∈ db.tuples j.table, db.joined (env.bind j.aliasName (some u)) j.on = true ∧
        env' ∈ db.joinAll js (env.bind j.aliasName (some u))) ∨
      (j.kind = .left ∧ env' ∈ db.joinAll js (env.bind j.aliasName none)) := by
  rw [joinAll, List.mem_flatMap] at h
  obtain ⟨env₁, h₁, h⟩ := h
  rcases join_ok h₁ with ⟨u, hu, hon, rfl⟩ | ⟨hkind, rfl⟩
  · exact .inl ⟨u, hu, hon, h⟩
  · exact .inr ⟨hkind, h⟩

/-- An alias that is not joined keeps what it stands for. -/
theorem joinAll_of_not_mem (h : env' ∈ db.joinAll js env) (hb : b ∉ js.map Join.aliasName) :
    env' b = env b := by
  induction js generalizing env with
  | nil =>
    rw [joinAll, List.mem_singleton] at h
    rw [h]
  | cons j js ih =>
    rw [List.map_cons, List.mem_cons, not_or] at hb
    rcases joinAll_cons_ok h with ⟨u, -, -, h⟩ | ⟨-, h⟩ <;> rw [ih h hb.2, Env.bind_of_ne _ hb.1]

/-- Joins only bring rows of tables. -/
theorem joinAll_keeps {P : Tuple → Prop} (hP : ∀ table, ∀ u ∈ db.tuples table, P u)
    (henv : ∀ b u, env b = some u → P u) (h : env' ∈ db.joinAll js env) :
    ∀ b u, env' b = some u → P u := by
  induction js generalizing env with
  | nil =>
    rw [joinAll, List.mem_singleton] at h
    rw [h]
    exact henv
  | cons j js ih =>
    rcases joinAll_cons_ok h with ⟨u, hu, -, h⟩ | ⟨-, h⟩
    · exact ih (Env.bind_keeps henv (fun v hv => by cases hv; exact hP _ u hu)) h
    · exact ih (Env.bind_keeps henv fun v hv => by cases hv) h

/-- Left joins lose nothing. -/
theorem exists_mem_joinAll (hleft : ∀ j ∈ js, j.kind = .left) (env : Env) :
    ∃ env', env' ∈ db.joinAll js env := by
  induction js generalizing env with
  | nil => exact ⟨env, List.mem_singleton_self env⟩
  | cons j js ih =>
    obtain ⟨env₁, h₁⟩ : ∃ env₁, env₁ ∈ db.join j env :=
      exists_mem_join (hleft j (List.mem_cons_self ..)) env
    obtain ⟨env', h'⟩ := ih (fun k hk => hleft k (List.mem_cons_of_mem _ hk)) env₁
    exact ⟨env', List.mem_flatMap.2 ⟨env₁, h₁, h'⟩⟩

/-! ## Ways -/

/-- What stands at the end of a way has been led to. -/
theorem leads_of_mem_joinAll (hway : IsWay a b js) (hnodup : (a :: js.map Join.aliasName).Nodup)
    (h : env' ∈ db.joinAll js env) {y : Tuple} (hy : env' b = some y) :
    ∃ x, env a = some x ∧ db.Leads a js x y := by
  induction js generalizing a env with
  | nil =>
    rw [joinAll, List.mem_singleton] at h
    subst h
    rw [← show a = b from hway] at hy
    exact ⟨y, hy, rfl⟩
  | cons j js ih =>
    obtain ⟨hj, hrest⟩ := hway
    rw [List.map_cons, List.nodup_cons] at hnodup
    have hne : a ≠ j.aliasName := fun heq => hnodup.1 (heq ▸ List.mem_cons_self ..)
    rcases joinAll_cons_ok h with ⟨u, hu, hon, h⟩ | ⟨-, h⟩
    · obtain ⟨w, hw, hlead⟩ := ih hrest hnodup.2 h
      rw [Env.bind_self] at hw
      cases hw
      cases ha : env a with
      | none =>
        rw [joined_of_none hj (by rw [Env.bind_of_ne _ hne]; exact ha)] at hon
        cases hon
      | some x =>
        rw [joined_eq_partners hj hne (by rw [Env.bind_of_ne _ hne]; exact ha)
          (Env.bind_self ..)] at hon
        exact ⟨x, rfl, u, hu, hon, hlead⟩
    · obtain ⟨w, hw, -⟩ := ih hrest hnodup.2 h
      rw [Env.bind_self] at hw
      cases hw

/-- Where a way leads, it can be taken. -/
theorem mem_joinAll_of_leads (hway : IsWay a b js) (hnodup : (a :: js.map Join.aliasName).Nodup)
    {x y : Tuple} (ha : env a = some x) (hlead : db.Leads a js x y) :
    ∃ env' ∈ db.joinAll js env, env' b = some y := by
  induction js generalizing a env x with
  | nil =>
    rw [show x = y from hlead, show a = b from hway] at ha
    exact ⟨env, List.mem_singleton_self env, ha⟩
  | cons j js ih =>
    obtain ⟨hj, hrest⟩ := hway
    obtain ⟨w, hw, hpartner, hlead⟩ := hlead
    rw [List.map_cons, List.nodup_cons] at hnodup
    have hne : a ≠ j.aliasName := fun heq => hnodup.1 (heq ▸ List.mem_cons_self ..)
    obtain ⟨env', henv', hy⟩ := ih hrest hnodup.2 (Env.bind_self env j.aliasName (some w)) hlead
    refine ⟨env', List.mem_flatMap.2 ⟨_, mem_join hw ?_, henv'⟩, hy⟩
    rw [joined_eq_partners hj hne (by rw [Env.bind_of_ne _ hne]; exact ha) (Env.bind_self ..)]
    exact hpartner

/-- Inner joins leave nothing without a partner. -/
theorem exists_of_inner (hway : IsWay a b js) (hnodup : (js.map Join.aliasName).Nodup)
    (hinner : ∀ j ∈ js, j.kind = .inner) {x : Tuple} (ha : env a = some x)
    (h : env' ∈ db.joinAll js env) : ∃ y, env' b = some y := by
  induction js generalizing a env x with
  | nil =>
    rw [joinAll, List.mem_singleton] at h
    rw [h, ← show a = b from hway]
    exact ⟨x, ha⟩
  | cons j js ih =>
    rw [List.map_cons, List.nodup_cons] at hnodup
    rcases joinAll_cons_ok h with ⟨u, -, -, h⟩ | ⟨hleft, -⟩
    · exact ih hway.2 hnodup.2 (fun k hk => hinner k (List.mem_cons_of_mem _ hk))
        (Env.bind_self ..) h
    · rw [hinner j (List.mem_cons_self ..)] at hleft
      cases hleft

end Database

end Sql

end GraphLoad
