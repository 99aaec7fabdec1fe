/-
The condition of a chain. Before it is restricted to the keys of its source, the statement of a chain
demands the predicates of its own sets and nothing else: starting the statement, joining, selecting,
ordering and taking a window add no condition.
-/
import GraphLoad.Proofs.Plan.Statement

namespace GraphLoad

open Sql

/-- Whether what stands under the alias of a set meets every predicate of the set. -/
def Command.Met (db : Database) (env : Env) (c : Command) : Prop :=
  ∀ p ∈ c.modifiers.predicates, ∃ name, c.entity.columns.get? p.field = some name ∧
    db.truth env (p.on (.column c.aliasName name)) = some true

namespace Plan

variable {db : Database} {env : Env} {t : CommandTree} {root : Command}
  {projections : List (List String)} {kind : JoinKind} {q q' : Select}

/-- The start of a chain demands nothing. -/
theorem startChain_condition (h : startChain t root {} = .ok ⟨⟩ q) : q.condition = .always := by
  unfold startChain at h
  cases ho : root.origin <;> rw [ho] at h
  case none => rw [← step_set_ok h]; rfl
  case some o =>
    obtain ⟨⟨p, r⟩, q₁, -, h⟩ := step_bind_ok h
    obtain ⟨⟨⟩, q₂, hset, h⟩ := step_bind_ok h
    obtain ⟨⟨⟩, q₃, hfields, hjoin⟩ := step_bind_ok h
    obtain ⟨js, -, rfl⟩ := Relation.join_ok hjoin
    show q₃.condition = .always
    rw [(selectFields_ok hfields).1.condition, ← step_set_ok hset]
    rfl

/-- The predicates of a set are demanded on top of what was demanded before. -/
theorem addPredicates_condition {c : Command}
    (h : c.modifiers.predicates.forM (addPredicate c) q = .ok ⟨⟩ q') :
    db.truth env q'.condition = some true ↔
      db.truth env q.condition = some true ∧ c.Met db env := by
  unfold Command.Met
  refine forM_builds (P := fun done q₁ => db.truth env q₁.condition = some true ↔
    db.truth env q.condition = some true ∧ ∀ p ∈ done,
      ∃ name, c.entity.columns.get? p.field = some name ∧
        db.truth env (p.on (.column c.aliasName name)) = some true) ?step (by simp) h
  rintro pre p post - q₁ q₂ ih hp
  unfold addPredicate at hp
  obtain ⟨x, q₃, hlift, hp⟩ := step_bind_ok hp
  obtain ⟨hx, rfl⟩ := step_lift_ok hlift
  obtain ⟨name, hname, rfl⟩ := Entity.fieldExpr_ok hx
  rw [← step_modify_ok hp]
  show db.truth env (q₁.condition.and (p.on (.column c.aliasName name))) = some true ↔ _
  rw [Condition.truth_and, both_eq_true, ih, and_assoc]
  simp only [List.mem_append, List.mem_singleton, or_imp, forall_and, forall_eq, hname,
    Option.some.injEq, exists_eq_left']

/-- Of what a set adds to a statement, only its predicates are demanded. -/
theorem addCommand_condition {c : Command}
    (h : addCommand t root.id projections kind c q = .ok ⟨⟩ q') :
    db.truth env q'.condition = some true ↔
      db.truth env q.condition = some true ∧ c.Met db env := by
  obtain ⟨q₁, q₂, hjoin, hsame, -, hpredicates⟩ := addCommand_ok h
  have hjoined : q₁.condition = q.condition := by
    rcases hjoin with ⟨-, rfl⟩ | ⟨-, o, p, -, -, hjoin⟩
    · rfl
    · obtain ⟨js, -, rfl⟩ := Relation.join_ok hjoin
      rfl
  rw [addPredicates_condition hpredicates, hsame.condition, hjoined]

/-- The condition of a chain is true exactly if all predicates of its sets are. -/
theorem writeChain_condition {commands : List Command}
    (h : writeChain t projections kind root commands {} = .ok ⟨⟩ q) :
    db.truth env q.condition = some true ↔ ∀ c ∈ commands, c.Met db env := by
  unfold writeChain at h
  obtain ⟨⟨⟩, start, hstart, h⟩ := step_bind_ok h
  obtain ⟨⟨⟩, q₁, hcommands, h⟩ := step_bind_ok h
  obtain ⟨⟨⟩, q₂, horders, hpage⟩ := step_bind_ok h
  -- orderings and the window leave the condition as the sets have made it
  have hlast : q.condition = q₁.condition := by
    rw [← step_modify_ok hpage]
    exact (addOrders_ok horders).1.condition
  rw [hlast]
  refine forM_builds (P := fun done q₁ => db.truth env q₁.condition = some true ↔
    ∀ c ∈ done, c.Met db env) ?step ?start hcommands
  case start =>
    rw [startChain_condition hstart]
    exact ⟨fun _ c hc => (nomatch hc), fun _ => rfl⟩
  case step =>
    rintro pre c post - q₁ q₂ ih hc
    rw [addCommand_condition hc, ih]
    simp only [List.mem_append, List.mem_singleton, or_imp, forall_and, forall_eq]

/-- The statement of a chain of a plan demands the predicates of its sets and nothing else. -/
theorem Made.condition {P : Schema → Prop} {cfg : Settings} {plan : Plan} {chain : Chain}
    (hmade : Made P t cfg plan) (hchain : chain ∈ plan.chains) :
    db.truth env chain.query.condition = some true ↔
      ∀ c ∈ chain.commands.filterMap t.get?, c.Met db env := by
  obtain ⟨shape, -, hcompile⟩ := forall₂_mem_right hmade.chains chain hchain
  obtain ⟨rfl, root, -, hwrite⟩ := compile_ok hcompile
  exact writeChain_condition hwrite

end Plan

end GraphLoad
