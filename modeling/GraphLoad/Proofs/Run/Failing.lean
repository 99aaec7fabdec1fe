/-
How a load can fail by itself. What hydration demands of a row (the keys of every set of the chain and
of its source, an object for both ends of every link) is what its statement selects, so that a load
whose statements are answered in full has one failure of its own left: a property for one object that
would lose it, under the strict policy. Under the other policy such a load always ends.
-/
import GraphLoad.Proofs.Run.Conflicts

namespace GraphLoad

open Sql

/-! ## How linking can fail -/

/-- An error of linking: a row was not hydrated for an alias, or the strict policy met a conflict. -/
def LoadError.OfLinking (policy : ConflictPolicy) (e : LoadError) : Prop :=
  e.code = .missingObject ∨ (e.code = .conflictingLink ∧ policy = .error)

/-- Whether a step either succeeds or fails as linking does. -/
def FailsAsLinking {σ : Type} (policy : ConflictPolicy) :
    EStateM.Result LoadError σ Unit → Prop :=
  Ends (fun _ _ => True) (fun e _ => e.OfLinking policy)

theorem forM_failsAsLinking {σ α : Type} {policy : ConflictPolicy} {f : α → EStateM LoadError σ Unit}
    {xs : List α} (hf : ∀ x ∈ xs, ∀ s, FailsAsLinking policy (f x s)) (s : σ) :
    FailsAsLinking policy (xs.forM f s) := by
  refine Ends.imp (forM_ends (P := fun _ _ => True) (E := fun _ e _ => e.OfLinking policy) ?_ trivial)
    (fun _ _ _ => trivial) fun e _ ⟨_, _, _, he⟩ => he
  intro pre x post hxs s₁ _
  exact hf x (hxs ▸ List.mem_append_right _ (List.mem_cons_self ..)) s₁

namespace Relation

variable {r : Relation} {policy : ConflictPolicy}

theorem reportConflict_fails (object previous : Nat) (property : String) (l : Links) :
    FailsAsLinking policy (r.reportConflict policy object previous property l) := by
  cases policy with
  | error => exact .inr ⟨rfl, rfl⟩
  | warn => trivial

/-- Looking for the object of a row only fails in a row that was not hydrated. -/
theorem object_fails (row : Row) (aliasName : String) (l : Links) :
    Ends (fun _ _ => True) (fun e _ => e.OfLinking policy)
      ((lift (row.object aliasName) : Linking (Option Nat)) l) := by
  unfold Row.object
  split
  · trivial
  · exact .inl rfl

theorem linkRow_fails (sourceAlias targetAlias : String) (back : Option String) (row : Row)
    (l : Links) : FailsAsLinking policy (r.linkRow sourceAlias targetAlias back policy row l) := by
  unfold linkRow
  refine Ends.bind (object_fails row sourceAlias l) fun source l₁ _ => ?_
  split
  · trivial
  · refine Ends.bind (object_fails row targetAlias l₁) fun target l₂ _ => ?_
    refine Ends.bind (linkForward_errors reportConflict_fails _ target l₂) fun _ l₃ _ => ?_
    split
    · exact linkBack_errors reportConflict_fails ..
    · trivial

end Relation

namespace Run

variable {executor : Executor} {plan : Plan} {chain : Chain} {t : CommandTree}

theorem linkSet_fails (rows : List Row) (c : Command) (run : Run) :
    FailsAsLinking plan.settings.conflicts (linkSet plan rows c run) := by
  unfold linkSet
  cases c.origin with
  | none => trivial
  | some o =>
    dsimp only
    cases plan.tree.get? o.parent with
    | none => trivial
    | some p =>
      refine (linking_ends (Q := fun _ => True) ?_).imp (fun _ _ _ => trivial) fun _ _ he => he
      exact forM_failsAsLinking (fun row _ l => Relation.linkRow_fails _ _ _ row l) _

theorem connect_fails (rows : List Row) (run : Run) :
    FailsAsLinking plan.settings.conflicts (connect plan chain rows run) := by
  unfold connect
  refine Ends.bind (forM_failsAsLinking (fun c _ r => linkSet_fails rows c r) run) fun _ r _ => ?_
  obtain ⟨r', hinit⟩ := initSource_total plan chain r
  rw [hinit]
  trivial

/-! ## How a chain can fail -/

/-- A run between two chains: it has written what the rows so far ask for, and its sets hold objects of
their entities. -/
def Sound (t : CommandTree) (plan : Plan) (run : Run) : Prop :=
  (∃ links, Wrote plan links run) ∧ Stocked t run

theorem sound_before (plan : Plan) (t : CommandTree) : Sound t plan (before t) :=
  ⟨⟨[], wrote_before plan t⟩, stocked_before t⟩

/-- A chain whose statement is answered in full is hydrated, or its rows disagree under the strict
policy: they have been filled for every alias that linking asks them for. -/
theorem runChain_answered {P : Schema → Prop} {cfg : Settings} (ht : t.Grown)
    (hmade : Plan.Made P t cfg plan) (hchain : chain ∈ plan.chains) {run : Run}
    (hsound : Sound t plan run)
    (hanswer : ∀ query, queryFor plan chain run = .ok (some query) run →
      ∃ rows, executor (run.sent ++ [query.build plan.settings.dialect]) = .ok rows ∧
        ∀ row ∈ rows, row.Labelled (query.build plan.settings.dialect).labels) :
    Ends (fun _ run' => Sound t plan run')
      (fun e _ => e.code = .conflictingLink ∧ cfg.conflicts = .error)
      (runChain executor plan chain run) := by
  obtain ⟨⟨links, hwrote⟩, hstocked⟩ := hsound
  have hshape : chain.toChainShape ∈ t.chainsFrom 0 := hmade.shapes ▸ List.mem_map_of_mem hchain
  obtain ⟨found, run₁, hfetch⟩ := fetch_total ht.ordered hmade hchain hstocked hanswer
  rw [runChain_of_fetch hfetch]
  cases found with
  | none =>
    obtain ⟨-, rfl⟩ | ⟨_, _, _, -, heq, -⟩ := fetch_ok hfetch
    · exact ⟨⟨links, hwrote⟩, hstocked⟩
    · cases heq
  | some rows =>
    obtain ⟨hwrote₁, hfilled⟩ := fetch_wrote ht hmade.tree hshape hwrote hstocked hfetch
    have hends := connect_ends ht.ordered hmade.tree hshape hwrote₁ hfilled
    dsimp only [follow]
    cases hlinked : connect plan chain rows run₁ with
    | ok _ run₂ => exact ⟨⟨_, (hends.ok hlinked).1⟩, (hends.ok hlinked).2⟩
    | error e run₂ =>
      have hcode : e.code = .conflictingLink := (hends.error hlinked).1
      have hpolicy : e.OfLinking plan.settings.conflicts :=
        (connect_fails rows run₁).error hlinked
      rw [LoadError.OfLinking, hcode, hmade.settings] at hpolicy
      exact ⟨hcode, (hpolicy.resolve_left nofun).2⟩

/-- A run whose statements are answered in full ends, or its rows disagree under the strict policy. -/
theorem run_answered {P : Schema → Prop} {cfg : Settings} (ht : t.Grown)
    (hmade : Plan.Made P t cfg plan) (hsupplies : plan.Supplies executor) :
    Ends (fun _ _ => True) (fun e _ => e.code = .conflictingLink ∧ cfg.conflicts = .error)
      (plan.chains.forM (runChain executor plan) (before t)) := by
  -- the chains so far are kept beside what they left, as only such runs are sure to be answered
  refine (forM_ends
    (P := fun pre run => pre.forM (runChain executor plan) (before t) = .ok ⟨⟩ run ∧
      Sound t plan run)
    (E := fun _ e _ => e.code = .conflictingLink ∧ cfg.conflicts = .error)
    ?step ⟨rfl, sound_before plan t⟩).imp (fun _ _ _ => trivial) fun _ _ ⟨_, _, _, he⟩ => he
  rintro pre chain post hsplit run ⟨hpre, hsound⟩
  have hchain : chain ∈ plan.chains := hsplit ▸ List.mem_append_right _ (List.mem_cons_self ..)
  have hstep := runChain_answered ht hmade hchain hsound fun query hquery =>
    hsupplies pre chain post run query hsplit (hmade.tree ▸ hpre) hquery
  cases hran : runChain executor plan chain run with
  | ok _ run₁ => exact ⟨forM_snoc_ok hpre hran, hstep.ok hran⟩
  | error e run₁ => exact hstep.error hran

end Run

namespace Plan

variable {t : CommandTree} {cfg : Settings} {s s' : Schema} {plan : Plan} {executor : Executor}

/-- A load of a grown tree whose statements are all answered, in rows that have every column of their
statement, ends; or it fails for a conflicting link under the strict policy, and for nothing else. -/
theorem answered_loads (ht : t.Grown) (hmake : make t cfg s = .ok plan s')
    (hsupplies : plan.Supplies executor) :
    (∃ out, (plan.execute executor).result = .ok out) ∨
      ∃ e, (plan.execute executor).result = .error e ∧ e.code = .conflictingLink ∧
        cfg.conflicts = .error := by
  obtain ⟨-, hmade⟩ := make_ok (P := fun _ => True) (fun _ _ _ _ _ _ => trivial) trivial hmake
  have hends := Run.run_answered ht hmade hsupplies
  unfold execute
  rw [hmade.tree]
  cases hrun : plan.chains.forM (Run.runChain executor plan) (Run.before t) with
  | ok _ run => exact .inl ⟨_, rfl⟩
  | error e run =>
    exact .inr ⟨e, rfl, hends.error hrun⟩

/-- Under the other policy the book beside two authors is loaded, though its rows disagree. -/
theorem answered_loads_quarrel : works.Grown ∧
    ∃ plan s' out, make works {} { catalog := .ofList [author, book] } = .ok plan s' ∧
      plan.Supplies quarrel ∧ Disagree (plan.pointings quarrel) ∧
      (plan.execute quarrel).result = .ok out := by
  have hmade : ((made? works {} { catalog := .ofList [author, book] }).any
      fun plan => decide (Disagree (plan.pointings quarrel))) = true := by
    decide +kernel
  obtain ⟨plan, hsome, hfacts⟩ := (Option.any_eq_true _ _).1 hmade
  obtain ⟨s', hmake⟩ := made?_some hsome
  have hsupplies : plan.Supplies quarrel := supplies_completing plan _
  rcases answered_loads grown_works hmake hsupplies with ⟨out, hout⟩ | ⟨_, -, -, hstrict⟩
  · exact ⟨grown_works, plan, s', out, hmake, hsupplies, of_decide_eq_true hfacts, hout⟩
  · cases hstrict

end Plan

end GraphLoad
