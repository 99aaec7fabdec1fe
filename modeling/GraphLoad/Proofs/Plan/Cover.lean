/-
The cut of a grown command tree loses no command and repeats none: every command stands in exactly
one chain, and every chain but the first starts at a command that exactly one earlier chain has
listed as a root, below a command of that earlier chain.

The proof compares three walks over the same tree: the one down a chain (`below`), the one over all
chains (`chainsFrom`) and the plain one over a subtree, which a grown tree visits once.
-/
import GraphLoad.Proofs.Command.Growth
import GraphLoad.Proofs.Steps
import GraphLoad.Plan
import Mathlib.Data.List.Perm.Basic
import Mathlib.Data.List.Perm.Subperm

namespace GraphLoad

namespace CommandTree

open List

variable {t : CommandTree}

/-! ## The children of a grown tree -/

theorem childrenOf_of_none {id : Nat} (h : t.get? id = none) : t.childrenOf id = [] := by
  simp [childrenOf, h]

/-- In a grown tree every child comes after its command, so that a walk leaves none out. -/
theorem childrenOf_eq (ht : t.Ordered) {id : Nat} {c : Command} (h : t.get? id = some c) :
    t.childrenOf id = c.children := by
  simp only [childrenOf, h, Option.map_some, Option.getD_some]
  rw [List.filter_eq_self]
  intro j hj
  obtain ⟨d, hd, hp⟩ := (ht.children h j).1 hj
  simpa using ⟨ht.parent_lt hd hp, get?_lt hd⟩

theorem mem_childrenOf_iff (ht : t.Ordered) {id j : Nat} :
    j ∈ t.childrenOf id ↔ ∃ d, t.get? j = some d ∧ d.parent = some id := by
  cases h : t.get? id with
  | some c => rw [childrenOf_eq ht h, ht.children h j]
  | none =>
    rw [childrenOf_of_none h]
    refine ⟨fun hj => (List.not_mem_nil hj).elim, ?_⟩
    rintro ⟨d, hd, hp⟩
    obtain ⟨o, ho, rfl⟩ := Option.map_eq_some_iff.1 hp
    obtain ⟨-, p, hp', -⟩ := ht.sources hd ho
    rw [h] at hp'
    cases hp'

theorem nodup_childrenOf (ht : t.Ordered) (id : Nat) : (t.childrenOf id).Nodup := by
  cases h : t.get? id with
  | some c => rw [childrenOf_eq ht h]; exact ht.childrenNodup h
  | none => rw [childrenOf_of_none h]; exact .nil

/-- Numbers grow downwards, so what holds of a command when it holds of all later ones holds of
every command. -/
theorem later_induction (t : CommandTree) {P : Nat → Prop}
    (step : ∀ id, (∀ c, id < c → c < t.size → P c) → P id) (id : Nat) : P id :=
  step id fun c _ _ => later_induction t step c
termination_by t.size - id

/-! ## The plain walk over a subtree -/

/-- The commands of a subtree, depth first. -/
def subtree (t : CommandTree) (id : Nat) : List Nat :=
  id :: (t.childrenOf id).attach.flatMap fun ⟨c, _⟩ => t.subtree c
termination_by t.size - id
decreasing_by
  have h := mem_childrenOf ‹c ∈ t.childrenOf id›
  omega

theorem subtree_eq (t : CommandTree) (id : Nat) :
    t.subtree id = id :: (t.childrenOf id).flatMap t.subtree := by
  rw [subtree, List.flatMap_def, List.flatMap_def]
  simp

theorem le_of_mem_subtree (t : CommandTree) (id : Nat) : ∀ j ∈ t.subtree id, id ≤ j := by
  induction id using later_induction t with
  | step id ih =>
    intro j hj
    rw [subtree_eq, mem_cons, mem_flatMap] at hj
    rcases hj with rfl | ⟨c, hc, hj⟩
    · exact Nat.le_refl _
    · obtain ⟨h1, h2⟩ := mem_childrenOf hc
      exact Nat.le_trans (Nat.le_of_lt h1) (ih c h1 h2 j hj)

theorem mem_subtree_child {id p j : Nat} (hp : p ∈ t.subtree id)
    (hj : j ∈ t.childrenOf p) : j ∈ t.subtree id := by
  induction id using later_induction t with
  | step id ih =>
    rw [subtree_eq, mem_cons, mem_flatMap] at hp ⊢
    rcases hp with rfl | ⟨c, hc, hp⟩
    · exact .inr ⟨j, hj, by rw [subtree_eq]; exact mem_cons_self ..⟩
    · exact .inr ⟨c, hc, ih c (mem_childrenOf hc).1 (mem_childrenOf hc).2 hp⟩

/-- A command of a subtree is its first one or has its parent there. -/
theorem mem_subtree_parent (t : CommandTree) {id j : Nat} (hj : j ∈ t.subtree id) :
    j = id ∨ ∃ p ∈ t.subtree id, j ∈ t.childrenOf p := by
  induction id using later_induction t with
  | step id ih =>
    rw [subtree_eq, mem_cons, mem_flatMap] at hj
    rcases hj with rfl | ⟨c, hc, hj⟩
    · exact .inl rfl
    · right
      obtain ⟨h1, h2⟩ := mem_childrenOf hc
      rcases ih c h1 h2 hj with rfl | ⟨p, hp, hjp⟩
      · exact ⟨id, by rw [subtree_eq]; exact mem_cons_self .., hc⟩
      · refine ⟨p, ?_, hjp⟩
        rw [subtree_eq]
        exact mem_cons_of_mem _ (mem_flatMap.2 ⟨c, hc, hp⟩)

theorem childrenOf_unique (ht : t.Ordered) {p q j : Nat} (hp : j ∈ t.childrenOf p)
    (hq : j ∈ t.childrenOf q) : p = q := by
  obtain ⟨d, hd, h1⟩ := (mem_childrenOf_iff ht).1 hp
  obtain ⟨e, he, h2⟩ := (mem_childrenOf_iff ht).1 hq
  rw [hd] at he
  cases he
  rw [h1] at h2
  exact Option.some.inj h2

/-- The subtrees of two children of one command have no command in common. -/
theorem subtree_disjoint (ht : t.Ordered) {id a b : Nat} (ha : a ∈ t.childrenOf id)
    (hb : b ∈ t.childrenOf id) (hab : a ≠ b) : ∀ j, j ∈ t.subtree a → j ∈ t.subtree b → False := by
  intro j
  induction j using Nat.strongRecOn with
  | ind j ih =>
    intro hja hjb
    -- a child of `id` that stands below another child would have its parent, `id`, there too
    have hnot : ∀ {x y : Nat}, x ∈ t.childrenOf id → y ∈ t.childrenOf id → x ≠ y →
        x ∉ t.subtree y := by
      intro x y hx hy hxy hm
      rcases mem_subtree_parent t hm with rfl | ⟨p, hp, hxp⟩
      · exact hxy rfl
      · have := childrenOf_unique ht hx hxp
        have := le_of_mem_subtree t y p hp
        have := (mem_childrenOf hy).1
        omega
    rcases mem_subtree_parent t hja with rfl | ⟨p, hp, hjp⟩
    · exact hnot ha hb hab hjb
    · rcases mem_subtree_parent t hjb with rfl | ⟨q, hq, hjq⟩
      · exact hnot hb ha hab.symm hja
      · cases childrenOf_unique ht hjp hjq
        exact ih p (mem_childrenOf hjp).1 hp hq

theorem nodup_subtree (ht : t.Ordered) (id : Nat) : (t.subtree id).Nodup := by
  induction id using later_induction t with
  | step id ih =>
    rw [subtree_eq, nodup_cons, nodup_flatMap]
    refine ⟨fun hm => ?_, fun c hc => ih c (mem_childrenOf hc).1 (mem_childrenOf hc).2, ?_⟩
    · obtain ⟨c, hc, hm⟩ := mem_flatMap.1 hm
      have := le_of_mem_subtree t c id hm
      have := (mem_childrenOf hc).1
      omega
    · refine (nodup_childrenOf ht id).imp_of_mem fun ha hb hab => ?_
      exact fun j hja hjb => subtree_disjoint ht ha hb hab j hja hjb

theorem mem_subtree_zero (ht : t.Ordered) {j : Nat} (hj : j < t.size) : j ∈ t.subtree 0 := by
  induction j using Nat.strongRecOn with
  | ind j ih =>
    rcases Nat.eq_zero_or_pos j with rfl | h0
    · rw [subtree_eq]; exact mem_cons_self ..
    · obtain ⟨d, hd⟩ := get?_of_lt hj
      obtain ⟨p, hp, hlt⟩ := ht.parents hd h0
      exact mem_subtree_child (ih p hlt (by omega)) ((mem_childrenOf_iff ht).2 ⟨d, hd, hp⟩)

theorem lt_of_mem_subtree {id j : Nat} (hid : id < t.size) (hj : j ∈ t.subtree id) :
    j < t.size := by
  rcases mem_subtree_parent t hj with rfl | ⟨p, -, hjp⟩
  · exact hid
  · exact (mem_childrenOf hjp).2

/-- From its first command a grown tree is visited whole, and once. -/
theorem subtree_zero_perm (ht : t.Ordered) : t.subtree 0 ~ range t.size := by
  have h0 : 0 < t.size := by
    obtain ⟨c, hc, -⟩ := ht.first
    exact get?_lt hc
  refine (perm_ext_iff_of_nodup (nodup_subtree ht 0) nodup_range).2 fun j => ?_
  rw [mem_range]
  exact ⟨lt_of_mem_subtree h0, mem_subtree_zero ht⟩

/-! ## The walk down one chain -/

/-- What one child adds to the walk down a chain: itself as a root, or itself and what is found
below it. -/
def branch (t : CommandTree) (root : Command) (child : Nat) : Below :=
  match t.get? child with
  | none => {}
  | some command =>
    if startsChain root command then { roots := [child] }
    else { fused := child :: (t.below root child).fused, roots := (t.below root child).roots }

theorem below_eq (t : CommandTree) (root : Command) (id : Nat) :
    t.below root id = .join ((t.childrenOf id).map (t.branch root)) := by
  rw [below]
  congr 1
  exact attach_map_val (l := t.childrenOf id) (f := t.branch root)

theorem fused_below (t : CommandTree) (root : Command) (id : Nat) :
    (t.below root id).fused = (t.childrenOf id).flatMap fun c => (t.branch root c).fused := by
  rw [below_eq]
  simp only [Below.join, List.flatMap_map]

theorem roots_below (t : CommandTree) (root : Command) (id : Nat) :
    (t.below root id).roots = (t.childrenOf id).flatMap fun c => (t.branch root c).roots := by
  rw [below_eq]
  simp only [Below.join, List.flatMap_map]

/-- The commands fused below a command and the subtrees of the roots found there make up the
subtrees of its children. -/
theorem below_subtrees (t : CommandTree) (root : Command) (id : Nat) :
    (t.below root id).fused ++ (t.below root id).roots.flatMap t.subtree ~
      (t.childrenOf id).flatMap t.subtree := by
  induction id using later_induction t with
  | step id ih =>
    rw [fused_below, roots_below, flatMap_assoc]
    refine (flatMap_append_perm ..).trans (Perm.flatMap_left _ fun c hc => ?_)
    obtain ⟨hlt, hsize⟩ := mem_childrenOf hc
    obtain ⟨command, hcommand⟩ := get?_of_lt hsize
    simp only [branch, hcommand]
    split
    · simp
    · rw [subtree_eq t c]
      exact (ih c hlt hsize).cons c

/-- A command met on the walk down a chain has its parent there. -/
theorem parent_of_mem_below (ht : t.Ordered) {root : Command} {id j : Nat}
    (hj : j ∈ (t.below root id).fused ∨ j ∈ (t.below root id).roots) :
    ∃ d p, t.get? j = some d ∧ d.parent = some p ∧ (p = id ∨ p ∈ (t.below root id).fused) := by
  induction id using later_induction t with
  | step id ih =>
    rw [fused_below, roots_below, mem_flatMap, mem_flatMap] at hj
    obtain ⟨c, hc, hj⟩ : ∃ c ∈ t.childrenOf id,
        j ∈ (t.branch root c).fused ∨ j ∈ (t.branch root c).roots := by
      rcases hj with ⟨c, hc, h⟩ | ⟨c, hc, h⟩
      · exact ⟨c, hc, .inl h⟩
      · exact ⟨c, hc, .inr h⟩
    obtain ⟨d, hd, hp⟩ := (mem_childrenOf_iff ht).1 hc
    obtain ⟨hlt, hsize⟩ := mem_childrenOf hc
    simp only [branch, hd] at hj
    split at hj
    · rcases hj with hj | hj
      · cases hj
      · rw [mem_singleton] at hj
        subst hj
        exact ⟨d, id, hd, hp, .inl rfl⟩
    · rename_i hstart
      -- what is fused below a fused child is fused below `id`
      have hup : ∀ p, p = c ∨ p ∈ (t.below root c).fused → p ∈ (t.below root id).fused := by
        intro p hpc
        rw [fused_below, mem_flatMap]
        refine ⟨c, hc, ?_⟩
        simp only [branch, hd, if_neg hstart, mem_cons]
        exact hpc
      rw [mem_cons, or_assoc] at hj
      rcases hj with rfl | hj
      · exact ⟨d, id, hd, hp, .inl rfl⟩
      · obtain ⟨e, p, he, hep, hpc⟩ := ih c hlt hsize hj
        exact ⟨e, p, he, hep, .inr (hup p hpc)⟩

/-! ## The walk over all chains -/

theorem chainsFrom_eq (t : CommandTree) (root : Nat) :
    t.chainsFrom root = t.chainAt root :: (t.chainAt root).roots.flatMap t.chainsFrom := by
  rw [chainsFrom, List.flatMap_def, List.flatMap_def]
  simp

theorem root_chainAt (t : CommandTree) (root : Nat) : (t.chainAt root).root = root := by
  unfold chainAt; split <;> rfl

theorem head?_chainAt (t : CommandTree) (root : Nat) :
    (t.chainAt root).commands.head? = some root := by
  unfold chainAt; split <;> rfl

theorem source_chainAt {root : Nat} {c : Command} (h : t.get? root = some c) :
    (t.chainAt root).source = c.parent := by
  simp [chainAt, h]

/-- Every chain met on the way is the one at its root. -/
theorem eq_chainAt_of_mem (t : CommandTree) {root : Nat} {c : ChainShape}
    (hc : c ∈ t.chainsFrom root) : c = t.chainAt c.root := by
  induction root using later_induction t with
  | step root ih =>
    rw [chainsFrom_eq, mem_cons, mem_flatMap] at hc
    rcases hc with rfl | ⟨r, hr, hc⟩
    · rw [root_chainAt]
    · obtain ⟨h1, h2⟩ := lt_of_mem_roots_chainAt hr
      exact ih r h1 h2 hc

/-- The commands of a chain are not numbered before its root. -/
theorem le_of_mem_chainAt (t : CommandTree) {root i : Nat} (hi : i ∈ (t.chainAt root).commands) :
    root ≤ i := by
  unfold chainAt at hi
  split at hi
  · exact Nat.le_of_eq (mem_singleton.1 hi).symm
  · rename_i c _
    rcases mem_cons.1 hi with rfl | hi
    · exact Nat.le_refl _
    · exact Nat.le_of_lt (t.below_lt c root i (.inl hi)).1

theorem chainAt_subtree (t : CommandTree) (root : Nat) :
    (t.chainAt root).commands ++ (t.chainAt root).roots.flatMap t.subtree ~ t.subtree root := by
  rw [subtree_eq]
  unfold chainAt
  split
  · rename_i h; simp [childrenOf_of_none h]
  · exact (below_subtrees t _ root).cons root

/-- The commands of all chains from a root on are those of its subtree. -/
theorem commands_chainsFrom (t : CommandTree) (root : Nat) :
    (t.chainsFrom root).flatMap ChainShape.commands ~ t.subtree root := by
  induction root using later_induction t with
  | step root ih =>
    rw [chainsFrom_eq, flatMap_cons, flatMap_assoc]
    refine Perm.trans (Perm.append_left _ (Perm.flatMap_left _ fun r hr => ?_)) (chainAt_subtree t root)
    exact ih r (lt_of_mem_roots_chainAt hr).1 (lt_of_mem_roots_chainAt hr).2

/-- The roots listed by the chains from a root on are the roots of all of them but the first. -/
theorem roots_chainsFrom (t : CommandTree) (root : Nat) :
    root :: (t.chainsFrom root).flatMap ChainShape.roots ~
      (t.chainsFrom root).map ChainShape.root := by
  induction root using later_induction t with
  | step root ih =>
    rw [chainsFrom_eq, flatMap_cons, flatMap_assoc, map_cons, root_chainAt, map_flatMap]
    refine Perm.cons root ?_
    -- each root moves in front of what the chains from it list
    have hmap := map_append_flatMap_perm (t.chainAt root).roots id
      fun r => (t.chainsFrom r).flatMap ChainShape.roots
    rw [map_id] at hmap
    refine hmap.trans (Perm.flatMap_left _ fun r hr => ?_)
    exact ih r (lt_of_mem_roots_chainAt hr).1 (lt_of_mem_roots_chainAt hr).2

/-- A place in a joined list is a place in one of the lists that were joined. -/
theorem flatMap_split {α β : Type} {f : α → List β} {c : β} {post : List β} :
    ∀ {xs : List α} {pre : List β}, xs.flatMap f = pre ++ c :: post →
      ∃ x ∈ xs, ∃ pre' mid post', pre = pre' ++ mid ∧ f x = mid ++ c :: post'
  | [], pre, h => by simp at h
  | x :: xs, pre, h => by
    rw [flatMap_cons] at h
    rcases append_eq_append_iff.1 h with ⟨m, rfl, hrest⟩ | ⟨m, hm, hrest⟩
    · obtain ⟨y, hy, pre', mid, post', rfl, hsub⟩ := flatMap_split hrest
      exact ⟨y, mem_cons_of_mem _ hy, f x ++ pre', mid, post', by rw [append_assoc], hsub⟩
    · cases m with
      | nil =>
        -- the first list ends right before the place, which then is in a later one
        have hrest' : xs.flatMap f = [] ++ c :: post := hrest.symm
        obtain ⟨y, hy, pre', mid, post', hpre, hsub⟩ := flatMap_split hrest'
        obtain ⟨rfl, rfl⟩ := append_eq_nil_iff.1 hpre.symm
        exact ⟨y, mem_cons_of_mem _ hy, pre, [], post', (append_nil pre).symm, hsub⟩
      | cons m ms =>
        rw [cons_append, cons.injEq] at hrest
        obtain ⟨rfl, -⟩ := hrest
        exact ⟨x, mem_cons_self .., [], pre, ms, rfl, hm⟩

/-- A chain after the first is preceded by one that lists its root. -/
theorem listed_before (t : CommandTree) {root : Nat} {pre post : List ChainShape} {c : ChainShape}
    (h : t.chainsFrom root = pre ++ c :: post) : c.root = root ∨ ∃ d ∈ pre, c.root ∈ d.roots := by
  induction root using later_induction t generalizing pre post with
  | step root ih =>
    rw [chainsFrom_eq] at h
    cases pre with
    | nil =>
      rw [nil_append, cons.injEq] at h
      rw [← h.1, root_chainAt]
      exact .inl rfl
    | cons d pre =>
      rw [cons_append, cons.injEq] at h
      obtain ⟨rfl, h⟩ := h
      right
      -- the chain stands among those from one of the roots, the first of which is at that root
      obtain ⟨r, hr, pre', mid, post', rfl, hsub⟩ := flatMap_split h
      obtain ⟨h1, h2⟩ := lt_of_mem_roots_chainAt hr
      rcases ih r h1 h2 hsub with hroot | ⟨d, hd, hlist⟩
      · exact ⟨_, mem_cons_self .., hroot ▸ hr⟩
      · exact ⟨d, mem_cons_of_mem _ (mem_append_right _ hd), hlist⟩

/-- The parent of a command that is fused below another is that one or is fused before it. -/
theorem parent_before_below (ht : t.Ordered) {root : Command} {id j : Nat} {pre post : List Nat}
    (h : (t.below root id).fused = pre ++ j :: post) :
    ∃ d p, t.get? j = some d ∧ d.parent = some p ∧ (p = id ∨ p ∈ pre) := by
  induction id using later_induction t generalizing pre post with
  | step id ih =>
    rw [fused_below] at h
    obtain ⟨c, hc, pre', mid, post', rfl, hsub⟩ := flatMap_split h
    obtain ⟨d, hd, hp⟩ := (mem_childrenOf_iff ht).1 hc
    simp only [branch, hd] at hsub
    split at hsub
    · simp at hsub
    · cases mid with
      | nil =>
        rw [nil_append, cons.injEq] at hsub
        obtain ⟨rfl, -⟩ := hsub
        exact ⟨d, id, hd, hp, .inl rfl⟩
      | cons m mid =>
        rw [cons_append, cons.injEq] at hsub
        obtain ⟨rfl, hsub⟩ := hsub
        obtain ⟨hlt, hsize⟩ := mem_childrenOf hc
        obtain ⟨e, p, he, hep, hpc⟩ := ih c hlt hsize hsub
        exact ⟨e, p, he, hep, .inr (mem_append_right _ (mem_cons.2 hpc))⟩

/-- In a chain the root comes first, and every other command comes after its parent. -/
theorem parent_before (ht : t.Ordered) {root j : Nat} {c : ChainShape} (hc : c ∈ t.chainsFrom root)
    {pre post : List Nat} (h : c.commands = pre ++ j :: post) :
    (pre = [] ∧ j = c.root) ∨
      ∃ d p, t.get? j = some d ∧ d.parent = some p ∧ c.root ∈ pre ∧ p ∈ pre := by
  rw [eq_chainAt_of_mem t hc] at h
  unfold chainAt at h
  split at h
  · cases pre with
    | nil => cases h; exact .inl ⟨rfl, rfl⟩
    | cons m pre => simp at h
  · cases pre with
    | nil => cases h; exact .inl ⟨rfl, rfl⟩
    | cons m pre =>
      rw [cons_append, cons.injEq] at h
      obtain ⟨rfl, hbelow⟩ := h
      obtain ⟨d, p, hd, hp, hmem⟩ := parent_before_below ht hbelow
      exact .inr ⟨d, p, hd, hp, mem_cons_self .., mem_cons.2 hmem⟩

theorem source_eq {root : Nat} {shape : ChainShape} (hshape : shape ∈ t.chainsFrom root) {c : Command}
    (hc : t.get? shape.root = some c) : shape.source = c.parent := by
  rw [eq_chainAt_of_mem t hshape, source_chainAt hc]

/-- What a command of a chain is loaded from is the source of the chain or stands in it. -/
theorem parent_of_mem (ht : t.Ordered) {root : Nat} {shape : ChainShape}
    (hshape : shape ∈ t.chainsFrom root) {i : Nat} {c : Command} {o : Origin}
    (hi : i ∈ shape.commands) (hc : t.get? i = some c) (ho : c.origin = some o) :
    (i = shape.root ∧ shape.source = some o.parent) ∨
      (o.parent ∈ shape.commands ∧ o.parent < i) := by
  have hparent : c.parent = some o.parent := by rw [Command.parent, ho, Option.map_some]
  obtain ⟨pre, post, hsplit⟩ := append_of_mem hi
  rcases parent_before ht hshape hsplit with ⟨-, rfl⟩ | ⟨d, p, hd, hdp, -, hmem⟩
  · exact .inl ⟨rfl, (source_eq hshape hc).trans hparent⟩
  · right
    rw [hc] at hd
    cases hd
    rw [hparent] at hdp
    cases hdp
    exact ⟨hsplit ▸ mem_append_left _ hmem, ht.parent_lt hc hparent⟩

/-- A command that is not loaded from another one is the root of a chain without a source. -/
theorem root_of_origin (ht : t.Ordered) {root : Nat} {shape : ChainShape}
    (hshape : shape ∈ t.chainsFrom root) {i : Nat} {c : Command} (hi : i ∈ shape.commands)
    (hc : t.get? i = some c) (ho : c.origin = none) : i = shape.root ∧ shape.source = none := by
  have hparent : c.parent = none := by rw [Command.parent, ho, Option.map_none]
  obtain ⟨pre, post, hsplit⟩ := append_of_mem hi
  rcases parent_before ht hshape hsplit with ⟨-, rfl⟩ | ⟨d, p, hd, hdp, -⟩
  · exact ⟨rfl, (source_eq hshape hc).trans hparent⟩
  · rw [hc] at hd
    cases hd
    rw [hparent] at hdp
    cases hdp

end CommandTree

end GraphLoad
