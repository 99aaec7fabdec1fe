/-
The cut of a command tree into chains. A chain is loaded by one statement: it starts at a root and
goes on with every command below that does not need a statement of its own; those that do are the
roots of further chains. Shown here: a walk down the tree only meets larger numbers, so it ends.
-/
import GraphLoad.Command.Tree

namespace GraphLoad

/-- Whether `child` needs a statement of its own below a chain that starts at `root`. A window of
rows needs one, and so do many objects below a window; otherwise the policy decides. -/
def startsChain (root child : Command) : Bool :=
  let many := child.cardinality == .many
  if child.isPaginated then true
  else if root.isPaginated && many then true
  else
    match child.modifiers.policy with
    | .auto => many
    | .root => true
    | .slave => false

/-- The commands found below one: those of the same chain, and the roots of other chains. -/
structure Below where
  fused : List Nat := []
  roots : List Nat := []

/-- What is found below several commands, one after the other. -/
def Below.join (parts : List Below) : Below :=
  ⟨parts.flatMap Below.fused, parts.flatMap Below.roots⟩

/-- A chain as a part of its tree. `source` is the command whose set the chain starts from. -/
structure ChainShape where
  root : Nat
  source : Option Nat
  commands : List Nat
  roots : List Nat

namespace CommandTree

/-- The children of a command. They are numbered after it. -/
def childrenOf (t : CommandTree) (id : Nat) : List Nat :=
  (((t.get? id).map Command.children).getD []).filter fun child => id < child ∧ child < t.size

theorem mem_childrenOf {t : CommandTree} {id child : Nat} (h : child ∈ t.childrenOf id) :
    id < child ∧ child < t.size := by
  simpa using (List.mem_filter.1 h).2

/-- The commands below `id` that belong to the chain from `root`, and the chain roots among them;
depth first, in the order of the children. -/
def below (t : CommandTree) (root : Command) (id : Nat) : Below :=
  .join ((t.childrenOf id).attach.map fun ⟨child, _⟩ =>
    match t.get? child with
    | none => {}
    | some command =>
      if startsChain root command then { roots := [child] }
      else
        let rest := t.below root child
        { rest with fused := child :: rest.fused })
termination_by t.size - id
decreasing_by
  have h := mem_childrenOf ‹child ∈ t.childrenOf id›
  omega

/-! ## Numbers grow downwards -/

theorem below_lt (t : CommandTree) (root : Command) (id : Nat) :
    ∀ c, c ∈ (t.below root id).fused ∨ c ∈ (t.below root id).roots → id < c ∧ c < t.size := by
  intro c hc
  rw [below] at hc
  simp only [Below.join, List.mem_flatMap, List.mem_map, List.mem_attach, true_and,
    Subtype.exists] at hc
  have step : ∃ child, ∃ hmem : child ∈ t.childrenOf id, c = child ∨
      c ∈ (t.below root child).fused ∨ c ∈ (t.below root child).roots := by
    rcases hc with ⟨part, ⟨child, hmem, rfl⟩, hc⟩ | ⟨part, ⟨child, hmem, rfl⟩, hc⟩
    all_goals
      refine ⟨child, hmem, ?_⟩
      cases hg : t.get? child with
      | none => simp [hg] at hc
      | some command =>
        simp only [hg] at hc
        split at hc <;> grind
  obtain ⟨child, hmem, hc⟩ := step
  have hlt := mem_childrenOf hmem
  rcases hc with rfl | hc
  · exact hlt
  · have ih := below_lt t root child c hc
    exact ⟨Nat.lt_trans hlt.1 ih.1, ih.2⟩
termination_by t.size - id
decreasing_by
  have := mem_childrenOf hmem
  omega

/-! ## Chains -/

/-- The chain that starts at a command. -/
def chainAt (t : CommandTree) (root : Nat) : ChainShape :=
  match t.get? root with
  | none => ⟨root, none, [root], []⟩
  | some command =>
    let found := t.below command root
    ⟨root, command.parent, root :: found.fused, found.roots⟩

theorem lt_of_mem_roots_chainAt {t : CommandTree} {root c : Nat}
    (h : c ∈ (t.chainAt root).roots) : root < c ∧ c < t.size := by
  unfold chainAt at h
  cases hg : t.get? root with
  | none => simp [hg] at h
  | some command =>
    simp only [hg] at h
    exact t.below_lt command root c (.inr h)

/-- The chains from a root on, each followed by those that start at its own roots. -/
def chainsFrom (t : CommandTree) (root : Nat) : List ChainShape :=
  t.chainAt root :: (t.chainAt root).roots.attach.flatMap fun ⟨c, _⟩ => t.chainsFrom c
termination_by t.size - root
decreasing_by
  have h := lt_of_mem_roots_chainAt ‹c ∈ (t.chainAt root).roots›
  omega

end CommandTree

end GraphLoad
