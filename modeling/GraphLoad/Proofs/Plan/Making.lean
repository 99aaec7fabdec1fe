/-
What a plan is made of: for every command the fields its projection chooses and the way back that
its relationship resolves to, and for every chain of the tree the statement it compiles to.
-/
import GraphLoad.Proofs.Steps
import GraphLoad.Plan

namespace GraphLoad

namespace Plan

/-- The plan of a tree, by its parts. The ways back are resolved in schemas of which `P` holds. -/
structure Made (P : Schema → Prop) (t : CommandTree) (cfg : Settings) (plan : Plan) : Prop where
  tree : plan.tree = t
  settings : plan.settings = cfg
  projections : List.Forall₂ (fun (c : Command) fields =>
    c.modifiers.projection.resolve c.entity = .ok fields) t.commands plan.projections
  reverses : List.Forall₂ (fun (c : Command) (r : Option Relation) =>
    ∀ o, c.origin = some o → ∃ s s', P s ∧ resolveReverse o.relation s = .ok r s')
    t.commands plan.reverses
  chains : List.Forall₂ (fun shape chain =>
    compile t plan.projections cfg.join shape = .ok chain) (t.chainsFrom 0) plan.chains

theorem resolveCommand_ok {c : Command} {s s' : Schema} {fields : List String}
    {reverse : Option Relation} (h : resolveCommand c s = .ok (fields, reverse) s') :
    c.modifiers.projection.resolve c.entity = .ok fields ∧
      match c.origin with
      | none => reverse = none ∧ s' = s
      | some o => resolveReverse o.relation s = .ok reverse s' := by
  unfold resolveCommand at h
  obtain ⟨fs, s₁, hlift, h⟩ := step_bind_ok h
  obtain ⟨hfs, rfl⟩ := step_lift_ok hlift
  cases ho : c.origin with
  | none =>
    rw [ho] at h
    obtain ⟨heq, rfl⟩ := step_pure_ok h
    cases heq
    exact ⟨hfs, rfl, rfl⟩
  | some o =>
    rw [ho] at h
    obtain ⟨r, s₂, hr, h⟩ := step_bind_ok h
    obtain ⟨heq, rfl⟩ := step_pure_ok h
    cases heq
    exact ⟨hfs, hr⟩

theorem resolveReverse_ok {r : Relation} {s s' : Schema} {reverse : Option Relation}
    (h : resolveReverse r s = .ok reverse s') :
    (∃ back, reverse = some back ∧ Schema.reverse r s = .ok back s') ∨
      (reverse = none ∧ ∃ e, Schema.reverse r s = .error e s') := by
  unfold resolveReverse at h
  split at h
  · rename_i back s₁ hb
    cases h
    exact .inl ⟨back, rfl, hb⟩
  · rename_i e s₁ he
    split at h
    · cases h
      exact .inr ⟨rfl, e, he⟩
    · cases h

/-- A plan is made of its parts. -/
theorem make_ok {P : Schema → Prop} {t : CommandTree} {cfg : Settings} {s s' : Schema}
    {plan : Plan} (hP : ∀ c s x s', P s → resolveCommand c s = .ok x s' → P s') (hs : P s)
    (h : make t cfg s = .ok plan s') : P s' ∧ Made P t cfg plan := by
  unfold make at h
  obtain ⟨resolved, s₁, hresolved, h⟩ := step_bind_ok h
  obtain ⟨hs₁, hall⟩ := step_mapM_ok hP hs hresolved
  obtain ⟨chains, s₂, hlift, h⟩ := step_bind_ok h
  obtain ⟨hchains, rfl⟩ := step_lift_ok hlift
  obtain ⟨rfl, rfl⟩ := step_pure_ok h
  refine ⟨hs₁, rfl, rfl, ?_, ?_, except_mapM_ok _ hchains⟩
  · rw [List.forall₂_map_right_iff]
    refine hall.imp fun c x hx => ?_
    obtain ⟨s₂, s₃, -, hx⟩ := hx
    exact (resolveCommand_ok hx).1
  · rw [List.forall₂_map_right_iff]
    refine hall.imp fun c x hx o ho => ?_
    obtain ⟨s₂, s₃, hs₂, hx⟩ := hx
    have hback := (resolveCommand_ok hx).2
    rw [ho] at hback
    exact ⟨s₂, s₃, hs₂, hback⟩

/-- The parts of a plan, whatever is known of the schemas on the way. -/
theorem made_of_make {t : CommandTree} {cfg : Settings} {s s' : Schema} {plan : Plan}
    (h : make t cfg s = .ok plan s') : Made (fun _ => True) t cfg plan :=
  (make_ok (fun _ _ _ _ _ _ => trivial) trivial h).2

/-- The fields and the ways back of a plan come from its commands, one after the other. -/
theorem make_resolved {t : CommandTree} {cfg : Settings} {s s' : Schema} {plan : Plan}
    (h : make t cfg s = .ok plan s') :
    ∃ resolved s₁, t.commands.mapM resolveCommand s = .ok resolved s₁ ∧
      plan.projections = resolved.map (·.1) ∧ plan.reverses = resolved.map (·.2) := by
  unfold make at h
  obtain ⟨resolved, s₁, hresolved, h⟩ := step_bind_ok h
  obtain ⟨chains, s₂, -, h⟩ := step_bind_ok h
  obtain ⟨rfl, -⟩ := step_pure_ok h
  exact ⟨resolved, s₁, hresolved, rfl, rfl⟩

theorem compile_ok {t : CommandTree} {projections : List (List String)} {join : Sql.JoinKind}
    {shape : ChainShape} {chain : Chain} (h : compile t projections join shape = .ok chain) :
    chain.toChainShape = shape ∧ ∃ root, t.get? shape.root = some root ∧
      writeChain t projections join root (shape.commands.filterMap t.get?) {} =
        .ok ⟨⟩ chain.query := by
  unfold compile at h
  split at h
  · cases h
  · rename_i root hroot
    split at h
    · rename_i query hquery
      cases h
      exact ⟨rfl, root, hroot, hquery⟩
    · cases h

/-- The chains of a plan are those of its tree, in the same order. -/
theorem Made.shapes {P : Schema → Prop} {t : CommandTree} {cfg : Settings} {plan : Plan}
    (h : Made P t cfg plan) :
    plan.chains.map Chain.toChainShape = t.chainsFrom 0 := by
  have hall := h.chains.imp fun shape chain hc => (compile_ok hc).1
  rw [← List.forall₂_eq_eq_eq, List.forall₂_map_left_iff]
  exact hall.flip

/-- The plan of a tree, if one can be made. -/
def made? (t : CommandTree) (cfg : Settings) (s : Schema) : Option Plan :=
  match make t cfg s with
  | .ok plan _ => some plan
  | .error .. => none

theorem made?_some {t : CommandTree} {cfg : Settings} {s : Schema} {plan : Plan}
    (h : made? t cfg s = some plan) : ∃ s', make t cfg s = .ok plan s' := by
  unfold made? at h
  split at h
  · rename_i plan' s' hmake
    cases h
    exact ⟨s', hmake⟩
  · cases h

end Plan

end GraphLoad
