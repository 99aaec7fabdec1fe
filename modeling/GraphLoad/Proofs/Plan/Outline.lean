/-
The outline of a plan mirrors its execution. Main statement: showing the first chain of a plan, and
below every chain those that start at its roots, comes to an end, and has then shown every chain once,
in the order in which the plan runs them, each as deep as there are chains to leave on the way from its
root up to the first command; every line shows what it is about, and the text is read back as the commands
of the chains in their order.

The printer looks the chain of a root up in the plan, where the cut of the tree goes on from the root
itself. The proof compares the two walks root by root; that a root tells its chain makes the look-up
find what the cut has put there.
-/
import GraphLoad.Proofs.Plan.Lines
import GraphLoad.Proofs.Run.Sending

namespace GraphLoad

open List

/-! ## The way up -/

/-- The commands on the way from a command up to the first one. -/
def CommandTree.upward (t : CommandTree) (id : Nat) : List Nat :=
  match (t.get? id).bind Command.parent with
  | none => [id]
  | some p => if p < id then id :: t.upward p else [id]

namespace CommandTree

variable {t : CommandTree} {i p : Nat} {c : Command}

theorem upward_of_none (hc : t.get? i = some c) (hp : c.parent = none) : t.upward i = [i] := by
  rw [upward, hc, Option.bind_some, hp]

theorem upward_of_some (ht : t.Ordered) (hc : t.get? i = some c) (hp : c.parent = some p) :
    t.upward i = i :: t.upward p := by
  have hlt := ht.parent_lt hc hp
  rw [upward, hc, Option.bind_some, hp]
  simp only [if_pos hlt]

theorem head?_upward (t : CommandTree) (i : Nat) : (t.upward i).head? = some i := by
  rw [upward]
  split
  · rfl
  · split <;> rfl

end CommandTree

namespace Plan

/-! ## Boundaries -/

/-- The number of steps in a list of commands that lead from one chain into another one. -/
def crossings (p : Plan) : List Nat → Nat
  | i :: j :: rest =>
    (if (p.chainOf? i).map (·.root) = (p.chainOf? j).map (·.root) then 0 else 1) +
      p.crossings (j :: rest)
  | _ => 0

/-- The number of boundaries between chains that lie between a command and the first one. -/
def boundaries (p : Plan) (id : Nat) : Nat := p.crossings (p.tree.upward id)

/-! ## The printer without a bound -/

/-- What the printer shows for a list of roots at a depth, if it comes to an end: for each root that a
chain starts at, that chain and what is shown for the roots of it, one level deeper. -/
inductive Shows (p : Plan) : Nat → List Nat → List (Nat × Chain) → Prop
  | done (depth : Nat) : Shows p depth [] []
  | missing {depth r : Nat} {rs : List Nat} {rest : List (Nat × Chain)} :
      p.chainRootedAt? r = none → Shows p depth rs rest → Shows p depth (r :: rs) rest
  | chain {depth r : Nat} {rs : List Nat} {sub : Chain} {under rest : List (Nat × Chain)} :
      p.chainRootedAt? r = some sub → Shows p (depth + 1) sub.roots under → Shows p depth rs rest →
        Shows p depth (r :: rs) ((depth, sub) :: (under ++ rest))

/-- The printer has one result at most. -/
theorem Shows.unique {p : Plan} {depth : Nat} {roots : List Nat} {shown shown' : List (Nat × Chain)}
    (h : p.Shows depth roots shown) (h' : p.Shows depth roots shown') : shown = shown' := by
  induction h generalizing shown' with
  | done depth => cases h'; rfl
  | missing hnone _ ih =>
    cases h' with
    | missing _ hrest => exact ih hrest
    | chain hsome => rw [hnone] at hsome; cases hsome
  | chain hsome _ _ ihunder ihrest =>
    cases h' with
    | missing hnone => rw [hsome] at hnone; cases hnone
    | chain hsome' hunder hrest =>
      rw [hsome] at hsome'
      cases hsome'
      rw [ihunder hunder, ihrest hrest]

/-- Lists of chains that are shown one after the other. -/
theorem Shows.flatMap {p : Plan} {depth : Nat} {f : Nat → List (Nat × Chain)} {roots : List Nat}
    (h : ∀ r ∈ roots, ∃ sub under, p.chainRootedAt? r = some sub ∧
      p.Shows (depth + 1) sub.roots under ∧ f r = (depth, sub) :: under) :
    p.Shows depth roots (roots.flatMap f) := by
  induction roots with
  | nil => exact .done depth
  | cons r rs ih =>
    obtain ⟨sub, under, hsub, hunder, hf⟩ := h r (mem_cons_self ..)
    rw [flatMap_cons, hf, cons_append]
    exact .chain hsub hunder (ih fun x hx => h x (mem_cons_of_mem r hx))

/-- What a plan shows of itself, next to what it does. -/
structure Outlined (plan : Plan) (first : Chain) : Prop where
  /-- The printer ends, and with nothing but the outline: its bound leaves nothing out. -/
  ends : ∃ under, plan.outline 0 first = (0, first) :: under ∧
    ∀ shown, plan.Shows 1 first.roots shown ↔ shown = under
  /-- It shows the chains of the plan in their order, each at the depth of its root. -/
  order : plan.outline 0 first = plan.chains.map fun chain => (plan.boundaries chain.root, chain)
  /-- No chain is shown twice. -/
  once : ((plan.outline 0 first).map Prod.snd).Nodup
  /-- The statements of a run are those of shown chains, in the order in which these are shown. -/
  runs : ∀ executor : Executor, ∃ statements : List (Chain × Sql.Statement),
    (plan.execute executor).sent = statements.map Prod.snd ∧
      (statements.map Prod.fst).Sublist ((plan.outline 0 first).map Prod.snd) ∧
      ∀ a ∈ statements, ∃ run, plan.Reaches executor a.1 run
  /-- The text is that of the chains, each with a line for each of its commands, in their order. -/
  text : plan.explain =
    String.join (plan.chains.map fun chain => plan.chainText (plan.boundaries chain.root) chain)
  /-- The commands of a chain are those of its numbers, none of which is left out. -/
  lines : ∀ chain ∈ plan.chains, ∃ commands : List Command,
    Forall₂ (fun i c => plan.tree.get? i = some c ∧ c.id = i) chain.commands commands ∧
      ∀ depth, plan.chainText depth chain =
        pad depth ++ plan.headLine chain ++ "\n" ++
          String.join (commands.map fun c => pad depth ++ "  " ++ plan.commandLine c ++ "\n") ++
          pad depth ++ "  sql: " ++ (chain.query.build plan.settings.dialect).text ++ "\n"
  /-- A chain is opened with the alias of its root, and with the entity or the alias of its source. -/
  heads : ∀ chain ∈ plan.chains, ∃ root, plan.tree.get? chain.root = some root ∧
    ((chain.source = none ∧
        plan.headLine chain = "chain " ++ root.aliasName ++ " (" ++ root.entity.name ++ ")") ∨
      ∃ s source, chain.source = some s ∧ plan.tree.get? s = some source ∧
        plan.headLine chain = "chain " ++ root.aliasName ++ " (keys of " ++ source.aliasName ++ ")")
  /-- The line of a command has its alias, and the entity or the relationship followed from its parent. -/
  shows : ∀ i c, plan.tree.get? i = some c →
    (c.origin = none ∧ plan.commandLine c = c.aliasName ++ " [" ++ c.entity.name ++ "]") ∨
      ∃ o parent, c.origin = some o ∧ plan.tree.get? o.parent = some parent ∧
        plan.commandLine c = c.aliasName ++ " <- " ++ parent.aliasName ++ "." ++ o.relation.name ++
          " [" ++ o.relation.cardinality.text ++ ", " ++ c.modifiers.policy.name ++ "]"
  /-- No two commands have the same alias. -/
  apart : (plan.tree.commands.map Command.aliasName).Nodup
  /-- Without breaks the text is read back: every chain at its depth, below it a line for the alias of each
  of its commands, in their order, and that of its statement. -/
  told : plan.Unbroken → (Text.pieces '\n' plan.explain).map Text.lead =
    (plan.chains.flatMap fun chain => plan.chainLeads (plan.boundaries chain.root) chain) ++ [(0, "")]

section

variable {t : CommandTree} {cfg : Settings} {P : Schema → Prop} {plan : Plan} {chain : Chain}

/-! ## Looking chains up -/

theorem Made.nodup_roots (hmade : Made P t cfg plan) (ht : t.Ordered) :
    (plan.chains.map fun chain => chain.root).Nodup := by
  have hroots := CommandTree.nodup_roots ht
  rw [← hmade.shapes, List.map_map] at hroots
  exact hroots

/-- A chain is found by its root. -/
theorem Made.chainRootedAt (hmade : Made P t cfg plan) (ht : t.Ordered) (hchain : chain ∈ plan.chains) :
    plan.chainRootedAt? chain.root = some chain := by
  have hsome : (plan.chainRootedAt? chain.root).isSome := by
    rw [chainRootedAt?, find?_isSome]
    exact ⟨chain, hchain, beq_self_eq_true chain.root⟩
  obtain ⟨found, hfound⟩ := Option.isSome_iff_exists.1 hsome
  have hroot : found.root = chain.root := by simpa using find?_some hfound
  rw [hfound, inj_on_of_nodup_map (hmade.nodup_roots ht) (mem_of_find?_eq_some hfound) hchain hroot]

theorem Made.chain_eq (hmade : Made P t cfg plan) (hchain : chain ∈ plan.chains) :
    chain.toChainShape = t.chainAt chain.root :=
  t.eq_chainAt_of_mem (hmade.shape_mem hchain)

/-- A root that a chain lists starts a later chain, which has the source of that root in the former
one. -/
theorem Made.rooted (hmade : Made P t cfg plan) (ht : t.Ordered) (hchain : chain ∈ plan.chains) {r : Nat}
    (hr : r ∈ chain.roots) : ∃ sub ∈ plan.chains, sub.root = r ∧
      ∃ s, sub.source = some s ∧ s ∈ chain.commands := by
  have hlisted : r ∈ (t.chainsFrom 0).map ChainShape.root :=
    (CommandTree.roots_chainsFrom t 0).mem_iff.1
      (mem_cons_of_mem 0 (mem_flatMap.2 ⟨_, hmade.shape_mem hchain, hr⟩))
  obtain ⟨shape, hshape, rfl⟩ := mem_map.1 hlisted
  obtain ⟨i, hi⟩ := getElem?_of_mem (hmade.shape_mem hchain)
  obtain ⟨j, hj⟩ := getElem?_of_mem hshape
  obtain ⟨-, s, -, hs, hmem⟩ := (CommandTree.partition_chainsFrom ht).earlier i j _ _ hi hj hr
  rw [← hmade.shapes] at hshape
  obtain ⟨sub, hsub, rfl⟩ := mem_map.1 hshape
  exact ⟨sub, hsub, rfl, s, hs, hmem⟩

/-! ## Depths -/

/-- One step up crosses a boundary exactly at the root of a chain. -/
theorem Made.boundaries_step (hmade : Made P t cfg plan) (ht : t.Ordered) (hchain : chain ∈ plan.chains)
    {i p : Nat} {c : Command} (hi : i ∈ chain.commands) (hc : t.get? i = some c)
    (hp : c.parent = some p) :
    plan.boundaries i = (if i = chain.root then 1 else 0) + plan.boundaries p := by
  obtain ⟨o, ho, rfl⟩ := Option.map_eq_some_iff.1 hp
  have hway : plan.tree.upward i = i :: plan.tree.upward o.parent := by
    rw [hmade.tree]
    exact CommandTree.upward_of_some ht hc hp
  obtain ⟨rest, hrest⟩ := head?_eq_some_iff.1 (plan.tree.head?_upward o.parent)
  rw [boundaries, boundaries, hway, hrest, crossings, hmade.chainOf? ht hchain hi]
  congr 1
  have hlt := ht.parent_lt hc hp
  obtain ⟨d, hd, hmem⟩ := hmade.exists_chain ht (Nat.lt_trans hlt (CommandTree.get?_lt hc))
  rw [hmade.chainOf? ht hd hmem]
  simp only [Option.map_some, Option.some.injEq]
  by_cases hroot : i = chain.root
  · -- the parent of a root is numbered before it, so it is in another chain
    have hle : d.root ≤ o.parent := by
      have hshape : o.parent ∈ (t.chainAt d.root).commands := hmade.chain_eq hd ▸ hmem
      exact t.le_of_mem_chainAt hshape
    rw [if_pos hroot, if_neg (by omega)]
  · rcases CommandTree.parent_of_mem ht (hmade.shape_mem hchain) hi hc ho with ⟨h, -⟩ | ⟨h, -⟩
    · exact (hroot h).elim
    · rw [chain_unique ht hmade.shapes hd hchain hmem h, if_pos rfl, if_neg hroot]

/-- All commands of a chain are as deep as its root. -/
theorem Made.boundaries_root (hmade : Made P t cfg plan) (ht : t.Ordered) (hchain : chain ∈ plan.chains)
    {i : Nat} (hi : i ∈ chain.commands) : plan.boundaries i = plan.boundaries chain.root := by
  induction i using Nat.strongRecOn with
  | ind i ih =>
    by_cases hroot : i = chain.root
    · rw [hroot]
    · have hlt := (CommandTree.partition_chainsFrom ht).commands _ (hmade.shape_mem hchain) i hi
      obtain ⟨c, hc⟩ := CommandTree.get?_of_lt hlt
      cases ho : c.origin with
      | none => exact (hroot (CommandTree.root_of_origin ht (hmade.shape_mem hchain) hi hc ho).1).elim
      | some o =>
        have hp : c.parent = some o.parent := by rw [Command.parent, ho, Option.map_some]
        rcases CommandTree.parent_of_mem ht (hmade.shape_mem hchain) hi hc ho with ⟨h, -⟩ | ⟨h, hlt⟩
        · exact (hroot h).elim
        · rw [hmade.boundaries_step ht hchain hi hc hp, if_neg hroot, Nat.zero_add, ih _ hlt h]

theorem Made.boundaries_zero (hmade : Made P t cfg plan) (ht : t.Ordered) : plan.boundaries 0 = 0 := by
  obtain ⟨c, hc, ho⟩ := ht.first
  have hway : plan.tree.upward 0 = [0] := by
    rw [hmade.tree]
    exact CommandTree.upward_of_none hc (by rw [Command.parent, ho, Option.map_none])
  rw [boundaries, hway]
  rfl

/-- A chain is one level below the one that lists its root. -/
theorem Made.boundaries_sub (hmade : Made P t cfg plan) (ht : t.Ordered) (hchain : chain ∈ plan.chains)
    {sub : Chain} (hsub : sub ∈ plan.chains) (hlisted : sub.root ∈ chain.roots) :
    plan.boundaries sub.root = plan.boundaries chain.root + 1 := by
  obtain ⟨sub', hsub', hroot, s, hs, hmem⟩ := hmade.rooted ht hchain hlisted
  obtain rfl := inj_on_of_nodup_map (hmade.nodup_roots ht) hsub' hsub hroot
  have hown := CommandTree.root_mem_commands (hmade.shape_mem hsub)
  have hlt := (CommandTree.partition_chainsFrom ht).commands _ (hmade.shape_mem hsub) _ hown
  obtain ⟨c, hc⟩ := CommandTree.get?_of_lt hlt
  have hp : c.parent = some s := (CommandTree.source_eq (hmade.shape_mem hsub) hc).symm.trans hs
  rw [hmade.boundaries_step ht hsub hown hc hp, if_pos rfl, hmade.boundaries_root ht hchain hmem,
    Nat.add_comm]

/-! ## The outline -/

theorem outline_eq (p : Plan) (depth : Nat) (chain : Chain) : p.outline depth chain =
    (depth, chain) :: (p.laterRoots chain).flatMap fun c =>
      ((p.chainRootedAt? c).map (p.outline (depth + 1))).getD [] := by
  rw [outline]
  congr 1
  conv_rhs => rw [← attach_map_subtype_val (p.laterRoots chain), flatMap_map]
  refine flatMap_congr fun ⟨c, hc⟩ _ => ?_
  simp only
  split <;> rename_i hfound <;> rw [hfound] <;> rfl

/-- The roots that a chain lists come after it, so the bound of the outline removes none. -/
theorem Made.laterRoots_eq (hmade : Made P t cfg plan) (hchain : chain ∈ plan.chains) :
    plan.laterRoots chain = chain.roots := by
  rw [laterRoots, filter_eq_self]
  intro r hr
  have hlisted : r ∈ (t.chainAt chain.root).roots := hmade.chain_eq hchain ▸ hr
  rw [hmade.tree]
  exact decide_eq_true (CommandTree.lt_of_mem_roots_chainAt hlisted)

/-- What the outline has below a chain is what the printer shows there. -/
theorem Made.outline_shows (hmade : Made P t cfg plan) (ht : t.Ordered) (root : Nat) :
    ∀ chain ∈ plan.chains, chain.root = root → ∀ depth,
      ∃ under, plan.Shows (depth + 1) chain.roots under ∧
        plan.outline depth chain = (depth, chain) :: under := by
  induction root using CommandTree.later_induction t with
  | step root ih =>
    rintro chain hchain rfl depth
    refine ⟨_, ?_, plan.outline_eq depth chain⟩
    rw [hmade.laterRoots_eq hchain]
    refine Shows.flatMap fun r hr => ?_
    obtain ⟨sub, hsub, rfl, -⟩ := hmade.rooted ht hchain hr
    obtain ⟨h1, h2⟩ := CommandTree.lt_of_mem_roots_chainAt (hmade.chain_eq hchain ▸ hr)
    obtain ⟨under, hunder, houtline⟩ := ih sub.root h1 h2 sub hsub rfl (depth + 1)
    refine ⟨sub, under, hmade.chainRootedAt ht hsub, hunder, ?_⟩
    rw [hmade.chainRootedAt ht hsub]
    exact houtline

/-- The chain that a part of the tree is compiled to, with its depth. -/
def marked? (p : Plan) (shape : ChainShape) : Option (Nat × Chain) :=
  (p.chainRootedAt? shape.root).map fun chain => (p.boundaries chain.root, chain)

theorem Made.marked (hmade : Made P t cfg plan) (ht : t.Ordered) (hchain : chain ∈ plan.chains) :
    plan.marked? chain.toChainShape = some (plan.boundaries chain.root, chain) := by
  rw [marked?, hmade.chainRootedAt ht hchain]
  rfl

/-- Below a chain the outline goes as the cut of the tree goes on from its root. -/
theorem Made.outline_chainsFrom (hmade : Made P t cfg plan) (ht : t.Ordered) (root : Nat) :
    ∀ chain ∈ plan.chains, chain.root = root →
      plan.outline (plan.boundaries root) chain =
        (t.chainsFrom root).filterMap plan.marked? := by
  induction root using CommandTree.later_induction t with
  | step root ih =>
    rintro chain hchain rfl
    rw [outline_eq, hmade.laterRoots_eq hchain, CommandTree.chainsFrom_eq, ← hmade.chain_eq hchain,
      filterMap_cons_some (hmade.marked ht hchain), filterMap_flatMap]
    congr 1
    refine flatMap_congr fun r hr => ?_
    obtain ⟨sub, hsub, rfl, -⟩ := hmade.rooted ht hchain hr
    obtain ⟨h1, h2⟩ := CommandTree.lt_of_mem_roots_chainAt (hmade.chain_eq hchain ▸ hr)
    rw [hmade.chainRootedAt ht hsub, ← hmade.boundaries_sub ht hchain hsub hr]
    exact ih sub.root h1 h2 sub hsub rfl

/-- The outline lists the chains of the plan in their order. -/
theorem Made.outline_chains (hmade : Made P t cfg plan) (ht : t.Ordered) (hchain : chain ∈ plan.chains)
    (hfirst : chain.root = 0) :
    plan.outline 0 chain = plan.chains.map fun chain => (plan.boundaries chain.root, chain) := by
  have houtline := hmade.outline_chainsFrom ht 0 chain hchain hfirst
  rw [hmade.boundaries_zero ht, ← hmade.shapes, filterMap_map] at houtline
  rw [houtline, ← filterMap_eq_map]
  exact filterMap_congr fun chain hchain => hmade.marked ht hchain

/-! ## The lines of a chain -/

/-- All numbers of a chain are those of commands, which so are the ones that have a line. -/
theorem Made.commands_listed (hmade : Made P t cfg plan) (ht : t.Ordered) (hchain : chain ∈ plan.chains) :
    Forall₂ (fun i c => plan.tree.get? i = some c ∧ c.id = i) chain.commands
      (chain.commands.filterMap plan.tree.get?) := by
  have hlt := (CommandTree.partition_chainsFrom ht).commands _ (hmade.shape_mem hchain)
  rw [hmade.tree]
  generalize chain.commands = ids at hlt
  induction ids with
  | nil => exact .nil
  | cons i ids ih =>
    obtain ⟨c, hc⟩ := CommandTree.get?_of_lt (hlt i (mem_cons_self ..))
    rw [filterMap_cons_some hc]
    exact .cons ⟨hc, ht.ids hc⟩ (ih fun j hj => hlt j (mem_cons_of_mem i hj))

/-- What opens a chain is about commands that are there. -/
theorem Made.headLine (hmade : Made P t cfg plan) (ht : t.Ordered) (hchain : chain ∈ plan.chains) :
    ∃ root, plan.tree.get? chain.root = some root ∧
      ((chain.source = none ∧
          plan.headLine chain = "chain " ++ root.aliasName ++ " (" ++ root.entity.name ++ ")") ∨
        ∃ s source, chain.source = some s ∧ plan.tree.get? s = some source ∧
          plan.headLine chain = "chain " ++ root.aliasName ++ " (keys of " ++ source.aliasName ++ ")") := by
  have hshape := hmade.shape_mem hchain
  obtain ⟨root, hroot⟩ := CommandTree.get?_of_lt ((CommandTree.partition_chainsFrom ht).commands _ hshape
    _ (CommandTree.root_mem_commands hshape))
  have hsource : chain.source = root.parent := CommandTree.source_eq hshape hroot
  rw [← hmade.tree] at hroot
  refine ⟨root, hroot, ?_⟩
  cases ho : root.origin with
  | none =>
    rw [Command.parent, ho, Option.map_none] at hsource
    exact .inl ⟨hsource, headLine_of_none hroot hsource⟩
  | some o =>
    obtain ⟨-, source, hs, -⟩ := ht.sources (hmade.tree ▸ hroot) ho
    rw [Command.parent, ho, Option.map_some] at hsource
    rw [← hmade.tree] at hs
    exact .inr ⟨o.parent, source, hsource, hs, headLine_of_some hroot hsource hs⟩

/-- So is the line of a set, whose parent is there. -/
theorem Made.commandLine (hmade : Made P t cfg plan) (ht : t.Ordered) {i : Nat} {c : Command}
    (hc : plan.tree.get? i = some c) :
    (c.origin = none ∧ plan.commandLine c = c.aliasName ++ " [" ++ c.entity.name ++ "]") ∨
      ∃ o parent, c.origin = some o ∧ plan.tree.get? o.parent = some parent ∧
        plan.commandLine c = c.aliasName ++ " <- " ++ parent.aliasName ++ "." ++ o.relation.name ++
          " [" ++ o.relation.cardinality.text ++ ", " ++ c.modifiers.policy.name ++ "]" := by
  cases ho : c.origin with
  | none => exact .inl ⟨rfl, commandLine_of_none ho⟩
  | some o =>
    obtain ⟨-, parent, hparent, -⟩ := ht.sources (hmade.tree ▸ hc) ho
    rw [← hmade.tree] at hparent
    exact .inr ⟨o, parent, rfl, hparent, commandLine_of_some ho hparent⟩

/-- What is shown of the chains of a plan is read back: the aliases of a grown tree are words where the
names of its entities are. -/
theorem Made.map_lead_pieces (hmade : Made P t cfg plan) (ht : t.Grown) (hunbroken : plan.Unbroken)
    {shown : List (Nat × Chain)} (hshown : ∀ x ∈ shown, x.2 ∈ plan.chains) :
    (Text.pieces '\n' (String.join (shown.map fun x => plan.chainText x.1 x.2))).map Text.lead =
      (shown.flatMap fun x => plan.chainLeads x.1 x.2) ++ [(0, "")] := by
  have halias : ∀ c ∈ plan.tree.commands, CommandTree.IsAlias c.entity.name c.aliasName := by
    intro c hc
    obtain ⟨i, hi⟩ := getElem?_of_mem hc
    exact ht.isAlias (hmade.tree ▸ hi)
  refine hunbroken.map_lead_pieces halias fun x hx => ⟨hshown x hx, fun i hi => ?_⟩
  obtain ⟨c, -, hc, -⟩ := forall₂_mem_left (hmade.commands_listed ht.ordered (hshown x hx)) i hi
  exact ⟨c, hc⟩

end

/-- Every plan of a grown tree mirrors what it does: its first chain is that of the first command, and
showing it visits all chains in the order in which they are run. -/
theorem explain_mirrors {t : CommandTree} {cfg : Settings} {s s' : Schema} {plan : Plan}
    (ht : t.Grown) (hmake : make t cfg s = .ok plan s') :
    ∃ first rest, plan.chains = first :: rest ∧ first.root = 0 ∧ plan.Outlined first := by
  have hmade := made_of_make hmake
  have hshapes := hmade.shapes
  rw [CommandTree.chainsFrom_eq] at hshapes
  obtain ⟨first, rest, hchains, hshape, -⟩ := map_eq_cons_iff.1 hshapes
  have hfirst : first ∈ plan.chains := by
    rw [hchains]
    exact mem_cons_self ..
  have hroot : first.root = 0 := by
    rw [hshape, CommandTree.root_chainAt]
  have horder := hmade.outline_chains ht.ordered hfirst hroot
  have hvisited : (plan.outline 0 first).map Prod.snd = plan.chains := by
    rw [horder, List.map_map]
    exact List.map_id plan.chains
  have hexplain : plan.explain =
      String.join ((plan.outline 0 first).map fun x => plan.chainText x.1 x.2) := by
    rw [explain, hchains]
  refine ⟨first, rest, hchains, hroot, ?_⟩
  constructor
  case ends =>
    obtain ⟨under, hshows, hunder⟩ := hmade.outline_shows ht.ordered 0 first hfirst hroot 0
    refine ⟨under, hunder, fun shown => ⟨fun h => h.unique hshows, ?_⟩⟩
    rintro rfl
    exact hshows
  case order => exact horder
  case once =>
    rw [hvisited]
    exact .of_map (fun chain => chain.root) (hmade.nodup_roots ht.ordered)
  case runs =>
    intro executor
    refine ⟨_, execute_sent ht hmade, ?_, fun a ha => ?_⟩
    · rw [hvisited]
      exact Run.statements_sublist executor plan plan.chains _
    · obtain ⟨run, -, hreaches, -⟩ := mem_execute_statements.1 ha
      exact ⟨run, hreaches⟩
  case text =>
    rw [hexplain, horder, List.map_map]
    rfl
  case lines =>
    intro chain hchain
    exact ⟨_, hmade.commands_listed ht.ordered hchain, fun depth => rfl⟩
  case heads => exact fun chain hchain => hmade.headLine ht.ordered hchain
  case shows => exact fun i c hc => hmade.commandLine ht.ordered hc
  case apart =>
    rw [hmade.tree]
    exact ht.aliases_nodup
  case told =>
    intro hunbroken
    have hshown : ∀ x ∈ plan.outline 0 first, x.2 ∈ plan.chains :=
      fun x hx => hvisited ▸ mem_map_of_mem hx
    rw [hexplain, hmade.map_lead_pieces ht hunbroken hshown, horder, flatMap_map]

/-- How the lines for the shelf start: four chains, the last two of them below the second one. -/
def shelfLeads : List (Nat × String) := [
  (0, "chain"), (2, "AUTHOR1"), (2, "sql:"),
  (2, "chain"), (4, "BOOK2"), (4, "AUTHOR3"), (4, "BOOK4"), (4, "sql:"),
  (4, "chain"), (6, "AUTHOR6"), (6, "sql:"),
  (4, "chain"), (6, "AUTHOR5"), (6, "sql:"), (0, "")]

/-- The outline of the shelf is read back. -/
theorem explain_mirrors_shelf : shelf.Grown ∧
    ∃ plan s' first rest, make shelf {} { catalog := .ofList [author, book] } = .ok plan s' ∧
      plan.Unbroken ∧ (Text.pieces '\n' plan.explain).map Text.lead = shelfLeads ∧
      plan.chains.map (fun chain => (chain.commands, plan.boundaries chain.root)) =
        [([0], 0), ([1, 2, 3], 1), ([5], 2), ([4], 2)] ∧
      plan.chains = first :: rest ∧ first.root = 0 ∧ plan.Outlined first := by
  refine ⟨grown_shelf, ?_⟩
  have hmade : ((made? shelf {} { catalog := .ofList [author, book] }).any fun plan => decide
      ((∀ c ∈ plan.tree.commands, (c.entity.name.toList.any Text.isBlank) = false) ∧
        (∀ c ∈ plan.tree.commands, ∀ o ∈ c.origin, '\n' ∉ o.relation.name.toList) ∧
        (∀ chain ∈ plan.chains, (10 : UInt8) ∉
          (chain.query.build plan.settings.dialect).text.toByteArray.data.toList) ∧
        ((plan.chains.flatMap fun chain => plan.chainLeads (plan.boundaries chain.root) chain) ++
          [(0, "")]) = shelfLeads ∧
        plan.chains.map (fun chain => (chain.commands, plan.boundaries chain.root)) =
          [([0], 0), ([1, 2, 3], 1), ([5], 2), ([4], 2)])) = true := by
    decide +kernel
  obtain ⟨plan, hsome, hfacts⟩ := (Option.any_eq_true _ _).1 hmade
  obtain ⟨hentities, hrelations, hstatements, hleads, hchains⟩ := of_decide_eq_true hfacts
  have hunbroken : plan.Unbroken := ⟨fun c hc => Text.word_of_any (hentities c hc), hrelations,
    fun chain hchain => Text.not_newline_of_bytes (hstatements chain hchain)⟩
  obtain ⟨s', hmake⟩ := made?_some hsome
  obtain ⟨first, rest, hfirst, hroot, hshown⟩ := explain_mirrors grown_shelf hmake
  exact ⟨plan, s', first, rest, hmake, hunbroken, (hshown.told hunbroken).trans hleads, hchains, hfirst,
    hroot, hshown⟩

end Plan

end GraphLoad
