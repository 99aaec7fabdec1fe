/-
Where a plan puts the sets of a tree. Main statement: the set loaded from another one belongs to the
chain of that one or starts a chain of its own, which is decided by comparing it with the root of that
chain, however far above it this root stands; so a windowed set always starts its chain, a chain below
a window goes on to single objects only, and a statement has the window of its root and no other.
-/
import GraphLoad.Proofs.Plan.Windows

namespace GraphLoad

open List Sql

namespace CommandTree

variable {t : CommandTree} {root c : Command}

/-! ## The children of what a walk has met -/

theorem commands_chainAt {i : Nat} (h : t.get? i = some root) :
    (t.chainAt i).commands = i :: (t.below root i).fused := by
  simp only [chainAt, h]

theorem roots_chainAt {i : Nat} (h : t.get? i = some root) :
    (t.chainAt i).roots = (t.below root i).roots := by
  simp only [chainAt, h]

theorem branch_of_starts {j : Nat} (hc : t.get? j = some c) (h : startsChain root c = true) :
    t.branch root j = { roots := [j] } := by
  simp only [branch, hc, h, if_true]

theorem branch_of_fuses {j : Nat} (hc : t.get? j = some c) (h : startsChain root c = false) :
    t.branch root j =
      { fused := j :: (t.below root j).fused, roots := (t.below root j).roots } := by
  simp only [branch, hc, h, Bool.false_eq_true, if_false]

/-- A walk takes each child of a command that it has met either into the chain or among the roots, as
the comparison with the root of the chain says. -/
theorem child_of_met {id p j : Nat} (hp : p = id ∨ p ∈ (t.below root id).fused)
    (hj : j ∈ t.childrenOf p) (hc : t.get? j = some c) :
    (startsChain root c = false → j ∈ (t.below root id).fused) ∧
      (startsChain root c = true → j ∈ (t.below root id).roots) := by
  induction id using later_induction t with
  | step id ih =>
    rw [fused_below, roots_below, mem_flatMap, mem_flatMap]
    rcases hp with rfl | hp
    · constructor
      · intro hfuses
        refine ⟨j, hj, ?_⟩
        rw [branch_of_fuses hc hfuses]
        exact mem_cons_self ..
      · intro hstarts
        refine ⟨j, hj, ?_⟩
        rw [branch_of_starts hc hstarts]
        exact mem_singleton_self j
    · rw [fused_below, mem_flatMap] at hp
      obtain ⟨child, hchild, hp⟩ := hp
      obtain ⟨hlt, hsize⟩ := mem_childrenOf hchild
      obtain ⟨command, hcommand⟩ := get?_of_lt hsize
      -- only a fused child has commands of the chain below it
      cases hfuses : startsChain root command with
      | true =>
        rw [branch_of_starts hcommand hfuses] at hp
        cases hp
      | false =>
        have hbranch := branch_of_fuses hcommand hfuses
        rw [hbranch, mem_cons] at hp
        obtain ⟨hin, hout⟩ := ih child hlt hsize hp
        constructor
        · intro h
          refine ⟨child, hchild, ?_⟩
          rw [hbranch]
          exact mem_cons_of_mem child (hin h)
        · intro h
          refine ⟨child, hchild, ?_⟩
          rw [hbranch]
          exact hout h

/-! ## The children of the commands of a chain -/

/-- A command of a chain that is not its root is fused below it. -/
theorem fused_of_mem_commands {i j : Nat} (hroot : t.get? i = some root)
    (hj : j ∈ (t.chainAt i).commands) (hne : j ≠ i) : j ∈ (t.below root i).fused := by
  rw [commands_chainAt hroot, mem_cons] at hj
  exact hj.resolve_left hne

/-- The child of a command of a chain belongs to that chain exactly if it does not need a statement of
its own below the root of the chain. -/
theorem child_mem_commands (ht : t.Ordered) {i j p : Nat} (hroot : t.get? i = some root)
    (hp : p ∈ (t.chainAt i).commands) (hc : t.get? j = some c) (hparent : c.parent = some p) :
    j ∈ (t.chainAt i).commands ↔ startsChain root c = false := by
  have hle := t.le_of_mem_chainAt hp
  rw [commands_chainAt hroot, mem_cons] at hp
  have hj : j ∈ t.childrenOf p := (mem_childrenOf_iff ht).2 ⟨c, hc, hparent⟩
  constructor
  · intro hmem
    refine t.startsChain_of_fused (fused_of_mem_commands hroot hmem ?_) hc
    exact Nat.ne_of_gt (Nat.lt_of_le_of_lt hle (mem_childrenOf hj).1)
  · intro hfuses
    rw [commands_chainAt hroot]
    exact mem_cons_of_mem i ((child_of_met hp hj hc).1 hfuses)

/-- The child of a command of a chain starts a chain of its own, with that command as its source, if
it needs a statement of its own below the root of the chain. -/
theorem child_starts (ht : t.Ordered) {i j p : Nat} (hchain : t.chainAt i ∈ t.chainsFrom 0)
    (hroot : t.get? i = some root) (hp : p ∈ (t.chainAt i).commands) (hc : t.get? j = some c)
    (hparent : c.parent = some p) (hstarts : startsChain root c = true) :
    ∃ own ∈ t.chainsFrom 0, own.root = j ∧ own.source = some p := by
  rw [commands_chainAt hroot, mem_cons] at hp
  have hj : j ∈ t.childrenOf p := (mem_childrenOf_iff ht).2 ⟨c, hc, hparent⟩
  have hlisted : j ∈ (t.chainAt i).roots := by
    rw [roots_chainAt hroot]
    exact (child_of_met hp hj hc).2 hstarts
  have hroots : j ∈ (t.chainsFrom 0).map ChainShape.root :=
    (roots_chainsFrom t 0).mem_iff.1 (mem_cons_of_mem 0 (mem_flatMap.2 ⟨_, hchain, hlisted⟩))
  obtain ⟨own, hown, rfl⟩ := mem_map.1 hroots
  exact ⟨own, hown, rfl, (source_eq hown hc).trans hparent⟩

end CommandTree

/-! ## Plans -/

/-- Where the commands of a tree stand in a plan. -/
structure Placed (t : CommandTree) (plan : Plan) : Prop where
  /-- Every command stands in one chain. -/
  home : ∀ i < t.size, ∃! chain, chain ∈ plan.chains ∧ i ∈ chain.commands
  /-- Every chain starts at a command. -/
  known : ∀ chain ∈ plan.chains, ∃ root, t.get? chain.root = some root ∧ chain.root ∈ chain.commands
  /-- A child stands in the chain of its parent unless the root of that chain lets it start one. -/
  fuses : ∀ chain ∈ plan.chains, ∀ root, t.get? chain.root = some root → ∀ p ∈ chain.commands,
    ∀ i c, t.get? i = some c → c.parent = some p →
      (i ∈ chain.commands ↔ startsChain root c = false)
  /-- Otherwise it starts a chain whose source is its parent. -/
  starts : ∀ chain ∈ plan.chains, ∀ root, t.get? chain.root = some root → ∀ p ∈ chain.commands,
    ∀ i c, t.get? i = some c → c.parent = some p → startsChain root c = true →
      ∃ own ∈ plan.chains, own.root = i ∧ own.source = some p
  /-- A windowed set starts its chain, whatever its policy. -/
  windowed : ∀ chain ∈ plan.chains, ∀ i ∈ chain.commands, ∀ c, t.get? i = some c →
    c.isPaginated = true → i = chain.root
  /-- The other sets of a chain that starts with a window are loaded along to-one relationships. -/
  single : ∀ chain ∈ plan.chains, ∀ root, t.get? chain.root = some root → root.isPaginated = true →
    ∀ i ∈ chain.commands, i ≠ chain.root → ∀ c, t.get? i = some c → c.cardinality = .one
  /-- A statement has the window of its root. -/
  page : ∀ chain ∈ plan.chains, ∀ root, t.get? chain.root = some root →
    chain.query.page = root.modifiers.page

namespace Plan

variable {t : CommandTree}

theorem writeChain_page {projections : List (List String)} {kind : JoinKind} {root : Command}
    {commands : List Command} {q q' : Select}
    (h : writeChain t projections kind root commands q = .ok ⟨⟩ q') :
    q'.page = root.modifiers.page := by
  unfold writeChain at h
  obtain ⟨⟨⟩, q₁, -, h⟩ := step_bind_ok h
  obtain ⟨⟨⟩, q₂, -, h⟩ := step_bind_ok h
  obtain ⟨⟨⟩, q₃, -, hpage⟩ := step_bind_ok h
  rw [← step_modify_ok hpage]
  rfl

section
variable {P : Schema → Prop} {cfg : Settings} {plan : Plan}

theorem Made.shape_mem {chain : Chain} (hmade : Made P t cfg plan) (hchain : chain ∈ plan.chains) :
    chain.toChainShape ∈ t.chainsFrom 0 :=
  hmade.shapes ▸ List.mem_map_of_mem hchain

/-- The source of a chain comes before its sets. -/
theorem Made.source_lt {chain : Chain} (hmade : Made P t cfg plan) (ht : t.Ordered)
    (hchain : chain ∈ plan.chains) {s i : Nat} (hs : chain.source = some s) (hi : i ∈ chain.commands) : s < i := by
  have hshape := hmade.shape_mem hchain
  obtain ⟨root, hroot⟩ := CommandTree.get?_of_lt
    ((CommandTree.partition_chainsFrom ht).commands _ hshape _ (CommandTree.root_mem_commands hshape))
  have hparent := CommandTree.source_eq hshape hroot
  rw [hs] at hparent
  have hle : chain.root ≤ i := by
    rw [CommandTree.eq_chainAt_of_mem t hshape] at hi
    exact t.le_of_mem_chainAt hi
  rcases Nat.eq_zero_or_pos chain.root with hzero | hpos
  · rw [hzero] at hroot
    rw [Command.parent, ht.origin_first hroot] at hparent
    cases hparent
  · obtain ⟨p, hp, hlt⟩ := ht.parents hroot hpos
    rw [hp] at hparent
    cases hparent
    exact Nat.lt_of_lt_of_le hlt hle

theorem Made.nodup_commands (hmade : Made P t cfg plan) (ht : t.Ordered) :
    (plan.chains.flatMap fun chain => chain.commands).Nodup := by
  have hnodup := CommandTree.nodup_commands ht
  rw [← hmade.shapes, List.flatMap_map] at hnodup
  exact hnodup

theorem Made.exists_chain (hmade : Made P t cfg plan) (ht : t.Ordered) {i : Nat} (hi : i < t.size) :
    ∃ chain ∈ plan.chains, i ∈ chain.commands := by
  obtain ⟨k, shape, hget, hcount, -⟩ := (CommandTree.partition_chainsFrom ht).once i hi
  have hmem : i ∈ shape.commands := List.count_pos_iff.1 (by rw [hcount]; exact Nat.one_pos)
  have hshape := List.mem_of_getElem? hget
  rw [← hmade.shapes] at hshape
  obtain ⟨chain, hchain, rfl⟩ := List.mem_map.1 hshape
  exact ⟨chain, hchain, hmem⟩

end

/-- A command tells its chain. -/
theorem chain_unique (ht : t.Ordered) {plan : Plan}
    (hshapes : plan.chains.map Chain.toChainShape = t.chainsFrom 0) {i : Nat} {a b : Chain}
    (ha : a ∈ plan.chains) (hb : b ∈ plan.chains) (hia : i ∈ a.commands) (hib : i ∈ b.commands) :
    a = b := by
  have hnodup : (plan.chains.flatMap fun chain => chain.commands).Nodup := by
    have h := CommandTree.nodup_commands ht
    rwa [← hshapes, flatMap_map] at h
  obtain ⟨m, hm⟩ := getElem?_of_mem ha
  obtain ⟨n, hn⟩ := getElem?_of_mem hb
  cases index_of_flatMap_nodup hnodup hm hn hia hib
  rw [hm] at hn
  exact Option.some.inj hn

/-- A chain is found by each of its commands. -/
theorem Made.chainOf? {P : Schema → Prop} {cfg : Settings} {plan : Plan} {chain : Chain}
    (hmade : Made P t cfg plan) (ht : t.Ordered) (hchain : chain ∈ plan.chains) {i : Nat}
    (hi : i ∈ chain.commands) : plan.chainOf? i = some chain := by
  unfold Plan.chainOf?
  obtain ⟨found, hfound⟩ := Option.isSome_iff_exists.1
    (List.find?_isSome (p := fun c : Chain => c.commands.contains i).2
      ⟨chain, hchain, List.contains_iff_mem.2 hi⟩)
  have hmem := List.contains_iff_mem.1
    (List.find?_some (p := fun c : Chain => c.commands.contains i) hfound)
  rw [hfound, chain_unique ht hmade.shapes (List.mem_of_find?_eq_some hfound) hchain hmem hi]

/-- Every plan of a grown tree puts each command where the root of its parent's chain asks for it, and
takes the window of each chain from its root. -/
theorem commands_placed {cfg : Settings} {s s' : Schema} {plan : Plan} (ht : t.Grown)
    (hmake : make t cfg s = .ok plan s') : Placed t plan := by
  obtain ⟨-, hmade⟩ := make_ok (P := fun _ => True) (fun _ _ _ _ _ _ => trivial) trivial hmake
  have hshapes := hmade.shapes
  have hpartition := CommandTree.partition_chainsFrom ht.ordered
  have hshape : ∀ chain ∈ plan.chains, chain.toChainShape ∈ t.chainsFrom 0 := by
    intro chain hchain
    rw [← hshapes]
    exact mem_map_of_mem hchain
  have hchainAt : ∀ chain ∈ plan.chains, chain.toChainShape = t.chainAt chain.root :=
    fun chain hchain => t.eq_chainAt_of_mem (hshape chain hchain)
  -- a command other than the root of its chain was compared with that root
  have hfused : ∀ chain ∈ plan.chains, ∀ root, t.get? chain.root = some root →
      ∀ i ∈ chain.commands, i ≠ chain.root → i ∈ (t.below root chain.root).fused := by
    intro chain hchain root hroot i hi hne
    rw [hchainAt chain hchain] at hi
    exact CommandTree.fused_of_mem_commands hroot hi hne
  have hknown : ∀ chain ∈ plan.chains,
      ∃ root, t.get? chain.root = some root ∧ chain.root ∈ chain.commands := by
    intro chain hchain
    have hmem := CommandTree.root_mem_commands (hshape chain hchain)
    obtain ⟨root, hroot⟩ :=
      CommandTree.get?_of_lt (hpartition.commands _ (hshape chain hchain) _ hmem)
    exact ⟨root, hroot, hmem⟩
  constructor
  case home =>
    intro i hi
    obtain ⟨n, shape, hn, hcount, -⟩ := hpartition.once i hi
    have hmem : i ∈ shape.commands := count_pos_iff.1 (hcount ▸ Nat.one_pos)
    rw [← hshapes] at hn
    obtain ⟨chain, hchain, rfl⟩ := mem_map.1 (mem_of_getElem? hn)
    exact ⟨chain, ⟨hchain, hmem⟩, fun other h =>
      chain_unique ht.ordered hshapes h.1 hchain h.2 hmem⟩
  case known => exact hknown
  case fuses =>
    intro chain hchain root hroot p hp i c hc hparent
    rw [hchainAt chain hchain] at hp ⊢
    exact CommandTree.child_mem_commands ht.ordered hroot hp hc hparent
  case starts =>
    intro chain hchain root hroot p hp i c hc hparent hstarts
    have hmem := hshape chain hchain
    rw [hchainAt chain hchain] at hp hmem
    obtain ⟨own, hown, hfacts⟩ :=
      CommandTree.child_starts ht.ordered hmem hroot hp hc hparent hstarts
    rw [← hshapes] at hown
    obtain ⟨chain', hchain', rfl⟩ := mem_map.1 hown
    exact ⟨chain', hchain', hfacts⟩
  case windowed =>
    intro chain hchain i hi c hc hwindow
    obtain ⟨root, hroot, -⟩ := hknown chain hchain
    by_contra hne
    have hfuses := t.startsChain_of_fused (hfused chain hchain root hroot i hi hne) hc
    unfold startsChain at hfuses
    rw [hwindow] at hfuses
    cases hfuses
  case single =>
    intro chain hchain root hroot hwindow i hi hne c hc
    exact CommandTree.cardinality_of_fused hwindow (hfused chain hchain root hroot i hi hne) hc
  case page =>
    intro chain hchain root hroot
    obtain ⟨shape, -, hcompile⟩ := forall₂_mem_right hmade.chains chain hchain
    obtain ⟨rfl, root', hroot', hwrite⟩ := compile_ok hcompile
    rw [hroot] at hroot'
    cases hroot'
    exact writeChain_page hwrite

theorem grown_teaser : teaser.Grown := by
  dsimp only [teaser]
  refine .modify 3 _ (grown_push ?_ 2 books rfl)
  refine grown_push ?_ 1 writer rfl
  exact .modify 1 _ (grown_push (.start 1 author) 0 books rfl)

/-- The books of an author that is fused below a window start a chain, though their policy would have
them fused: the root of the chain, two sets above them, is windowed. -/
theorem commands_placed_teaser : teaser.Grown ∧
    ∃ plan s', make teaser {} { catalog := .ofList [author, book] } = .ok plan s' ∧
      plan.chains.map (fun chain => (chain.commands, chain.source, chain.query.page)) =
        [([0], none, {}), ([1, 2], some 0, { limit := some 1 }), ([3], some 2, {})] ∧
      (teaser.get? 3).map (fun c => c.modifiers.policy) = some .slave ∧ Placed teaser plan := by
  refine ⟨grown_teaser, ?_⟩
  have hmade : ((made? teaser {} { catalog := .ofList [author, book] }).any fun plan => decide
      (plan.chains.map (fun chain => (chain.commands, chain.source, chain.query.page)) =
        [([0], none, {}), ([1, 2], some 0, { limit := some 1 }), ([3], some 2, {})])) = true := by
    decide +kernel
  obtain ⟨plan, hsome, hchains⟩ := (Option.any_eq_true _ _).1 hmade
  obtain ⟨s', hmake⟩ := made?_some hsome
  exact ⟨plan, s', hmake, of_decide_eq_true hchains, by decide, commands_placed grown_teaser hmake⟩

end Plan

end GraphLoad
