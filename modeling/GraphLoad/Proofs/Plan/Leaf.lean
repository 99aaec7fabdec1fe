/-
Trees that differ by a leaf. A set that nothing is loaded from comes into one chain or starts one of its
own, according to its policy and its cardinality; every other set stays in the chain it was in, in the
same place among the others, and every chain keeps its root and its source.
-/
import GraphLoad.Proofs.Plan.Totality

namespace GraphLoad

open List

namespace CommandTree

/-! ## One more set -/

theorem filter_ne_cons {j leaf : Nat} (h : j ≠ leaf) (xs : List Nat) :
    (j :: xs).filter (· ≠ leaf) = j :: xs.filter (· ≠ leaf) :=
  filter_cons_of_pos (decide_eq_true h)

theorem filter_ne_self (leaf : Nat) : [leaf].filter (· ≠ leaf) = [] := by
  simp

/-- A command of a tree with the children that it has in another one. -/
def again (t' : CommandTree) (c : Command) : Command :=
  { c with children := ((t'.get? c.id).map Command.children).getD [] }

/-- A tree and the same tree with one more set, from which nothing is loaded. -/
structure Extends (t t' : CommandTree) : Prop where
  size : t'.size = t.size + 1
  old : ∀ i < t.size, t'.get? i = (t.get? i).map t'.again
  children : ∀ i < t.size, (t'.childrenOf i).filter (· ≠ t.size) = t.childrenOf i
  leaf : t'.childrenOf t.size = []

variable {t t' : CommandTree} {i id root : Nat} {c : Command}

theorem Extends.get? (h : t.Extends t') (hc : t.get? i = some c) :
    t'.get? i = some (t'.again c) := by
  rw [h.old i (get?_lt hc), hc, Option.map_some]

/-- A tree to which a set is added, with whatever is asked of the new set. -/
theorem extends_add (ht : t.Ordered) {t₁ : CommandTree} {parent leaf : Nat} {r : Relation}
    (hadd : t.add parent r = .ok (t₁, leaf)) (f : Modifiers → Modifiers) :
    t.Extends (t₁.modify leaf f) ∧ (t₁.modify leaf f).get? t.size = some
      { t.newest r.target (some ⟨parent, r⟩) with modifiers := f {} } := by
  obtain ⟨source, hsource, hname, rfl, rfl⟩ := add_ok hadd
  have hpushed : (t.push r.target (some ⟨parent, r⟩)).Ordered := ordered_push ht hsource hname rfl
  have hordered := ordered_modify hpushed t.size f
  have hleaf : ((t.push r.target (some ⟨parent, r⟩)).modify t.size f).get? t.size = some
      { t.newest r.target (some ⟨parent, r⟩) with modifiers := f {} } := by
    rw [get?_modify, get?_push, if_pos rfl, Option.map_some, if_pos rfl]
    rfl
  have hold : ∀ {i c}, t.get? i = some c →
      ((t.push r.target (some ⟨parent, r⟩)).modify t.size f).get? i =
        some (grownBy t.size (some ⟨parent, r⟩) i c) := by
    intro i c hc
    rw [get?_modify, get?_push_of_some hc, Option.map_some, if_neg (Nat.ne_of_gt (get?_lt hc))]
  refine ⟨⟨?size, fun i hi => ?old, fun i hi => ?children, ?leaf⟩, hleaf⟩
  case size =>
    show (List.modify ..).length = _
    rw [List.length_modify, push]
    show (List.modify .. ++ [_]).length = _
    rw [List.length_append, List.length_modify]
    rfl
  case old =>
    obtain ⟨c, hc⟩ := get?_of_lt hi
    obtain rfl := ht.ids hc
    rw [hold hc, hc, Option.map_some, again, hold hc]
    unfold grownBy
    split <;> rfl
  case children =>
    obtain ⟨c, hc⟩ := get?_of_lt hi
    have hlater : ∀ j ∈ c.children, j ≠ t.size := by
      intro j hj
      obtain ⟨d, hd, -⟩ := (ht.children hc j).1 hj
      exact Nat.ne_of_lt (get?_lt hd)
    have hself : c.children.filter (· ≠ t.size) = c.children :=
      filter_eq_self.2 fun j hj => decide_eq_true (hlater j hj)
    rw [childrenOf_eq hordered (hold hc), childrenOf_eq ht hc]
    unfold grownBy
    split
    · show (c.children ++ [t.size]).filter _ = _
      rw [filter_append, hself, filter_ne_self, append_nil]
    · exact hself
  case leaf => rw [childrenOf_eq hordered hleaf]; rfl

/-! ## Chains -/

/-- What is made of each member apart from those of a kind, if nothing is made of these. -/
theorem flatMap_filter_of_nil {α β : Type} {p : α → Bool} {g : α → List β}
    (h : ∀ a, p a = false → g a = []) (xs : List α) : xs.flatMap g = (xs.filter p).flatMap g := by
  induction xs with
  | nil => rfl
  | cons x xs ih =>
    rw [flatMap_cons, filter_cons, ih]
    split
    · rw [flatMap_cons]
    · rw [h x (Bool.eq_false_iff.2 ‹_›), nil_append]

namespace Extends

/-- A walk down a chain meets what it met before, and maybe the new set. -/
theorem below (h : t.Extends t') (root : Command) (hid : id < t.size) :
    (t'.below (t'.again root) id).fused.filter (· ≠ t.size) = (t.below root id).fused ∧
      (t'.below (t'.again root) id).roots.filter (· ≠ t.size) = (t.below root id).roots := by
  induction id using later_induction t with
  | step id ih =>
    -- what a child adds is what it added before, and the new set adds itself alone
    have hbranch : ∀ j ∈ t.childrenOf id,
        (t'.branch (t'.again root) j).fused.filter (· ≠ t.size) = (t.branch root j).fused ∧
          (t'.branch (t'.again root) j).roots.filter (· ≠ t.size) = (t.branch root j).roots := by
      intro j hj
      obtain ⟨hlater, hlt⟩ := mem_childrenOf hj
      obtain ⟨c, hc⟩ := get?_of_lt hlt
      obtain ⟨hfused, hroots⟩ := ih j hlater hlt hlt
      have hne : j ≠ t.size := Nat.ne_of_lt hlt
      have hstarts : startsChain (t'.again root) (t'.again c) = startsChain root c := rfl
      simp only [branch, h.get? hc, hc, hstarts]
      split
      · exact ⟨rfl, filter_ne_cons hne []⟩
      · exact ⟨(filter_ne_cons hne _).trans (congrArg (j :: ·) hfused), hroots⟩
    have hleaf : ∀ j, decide (j ≠ t.size) = false →
        (t'.branch (t'.again root) j).fused.filter (· ≠ t.size) = [] ∧
          (t'.branch (t'.again root) j).roots.filter (· ≠ t.size) = [] := by
      intro j hj
      obtain rfl : j = t.size := by simpa using hj
      have hnone : ∀ root, (t'.below root t.size).fused = [] ∧ (t'.below root t.size).roots = [] := by
        intro root
        rw [fused_below, roots_below, h.leaf]
        exact ⟨rfl, rfl⟩
      unfold branch
      split
      · exact ⟨rfl, rfl⟩
      · split
        · exact ⟨rfl, filter_ne_self _⟩
        · rw [(hnone _).1, (hnone _).2]
          exact ⟨filter_ne_self _, rfl⟩
    rw [fused_below, fused_below, roots_below, roots_below, filter_flatMap, filter_flatMap,
      flatMap_filter_of_nil fun j hj => (hleaf j hj).1, flatMap_filter_of_nil fun j hj => (hleaf j hj).2,
      h.children id hid]
    exact ⟨flatMap_congr fun j hj => (hbranch j hj).1, flatMap_congr fun j hj => (hbranch j hj).2⟩

/-- The chain at a command keeps its source, its sets and the roots of further chains. -/
theorem chainAt (h : t.Extends t') (hroot : root < t.size) :
    (t'.chainAt root).source = (t.chainAt root).source ∧
      (t'.chainAt root).commands.filter (· ≠ t.size) = (t.chainAt root).commands ∧
      (t'.chainAt root).roots.filter (· ≠ t.size) = (t.chainAt root).roots := by
  obtain ⟨c, hc⟩ := get?_of_lt hroot
  obtain ⟨hfused, hroots⟩ := h.below c hroot
  simp only [CommandTree.chainAt, h.get? hc, hc]
  refine ⟨rfl, ?_, hroots⟩
  rw [filter_ne_cons (Nat.ne_of_lt hroot), hfused]

/-- The chains keep their roots. -/
theorem roots (h : t.Extends t') (hroot : root < t.size) :
    ((t'.chainsFrom root).map ChainShape.root).filter (· ≠ t.size) =
      (t.chainsFrom root).map ChainShape.root := by
  induction root using later_induction t with
  | step root ih =>
    obtain ⟨-, -, hroots⟩ := h.chainAt hroot
    have hleaf : ∀ j, decide (j ≠ t.size) = false →
        ((t'.chainsFrom j).map ChainShape.root).filter (· ≠ t.size) = [] := by
      intro j hj
      obtain rfl : j = t.size := by simpa using hj
      have hnone : (t'.chainAt t.size).roots = [] := by
        unfold CommandTree.chainAt
        split
        · rfl
        · show (t'.below _ t.size).roots = []
          rw [roots_below, h.leaf]
          rfl
      rw [chainsFrom_eq, hnone, map_cons, root_chainAt]
      exact filter_ne_self _
    rw [chainsFrom_eq, chainsFrom_eq, map_cons, map_cons, root_chainAt, root_chainAt,
      filter_ne_cons (Nat.ne_of_lt hroot), map_flatMap, map_flatMap, filter_flatMap, flatMap_filter_of_nil hleaf,
      hroots]
    refine congrArg (root :: ·) (flatMap_congr fun j hj => ?_)
    obtain ⟨hlater, hlt⟩ := lt_of_mem_roots_chainAt hj
    exact ih j hlater hlt hlt

end Extends

/-- A list without repetition and without one of its members. -/
theorem split_of_filter {xs ys : List Nat} {a : Nat} (hnodup : xs.Nodup)
    (h : xs.filter (· ≠ a) = ys) :
    ∃ pre mid post, ys = pre ++ post ∧ xs = pre ++ mid ++ post ∧ ∀ x ∈ mid, x = a := by
  by_cases ha : a ∈ xs
  · obtain ⟨pre, post, rfl⟩ := append_of_mem ha
    rw [nodup_middle, nodup_cons, mem_append, not_or] at hnodup
    have hself : ∀ zs : List Nat, a ∉ zs → zs.filter (· ≠ a) = zs := fun zs hzs =>
      filter_eq_self.2 fun z hz => decide_eq_true fun heq => hzs (heq ▸ hz)
    rw [append_cons, filter_append, filter_append, filter_ne_self, append_nil, hself pre hnodup.1.1,
      hself post hnodup.1.2] at h
    exact ⟨pre, [a], post, h.symm, by simp, fun x hx => mem_singleton.1 hx⟩
  · refine ⟨xs, [], [], ?_, by simp, fun x hx => nomatch hx⟩
    rw [← h, append_nil]
    exact filter_eq_self.2 fun z hz => decide_eq_true fun heq => ha (heq ▸ hz)

/-- A chain that is another one with maybe a further set among its others. -/
structure Gains (leaf : Nat) (shape shape' : ChainShape) : Prop where
  root : shape'.root = shape.root
  source : shape'.source = shape.source
  commands : ∃ pre mid post, shape.commands = pre ++ post ∧ shape'.commands = pre ++ mid ++ post ∧
    ∀ i ∈ mid, i = leaf

theorem Gains.mem {leaf : Nat} {shape shape' : ChainShape} (h : Gains leaf shape shape') :
    i ∈ shape'.commands → i ∈ shape.commands ∨ i = leaf := by
  obtain ⟨pre, mid, post, hcommands, hcommands', hmid⟩ := h.commands
  rw [hcommands, hcommands']
  simp only [mem_append]
  rintro ((hi | hi) | hi)
  · exact .inl (.inl hi)
  · exact .inr (hmid i hi)
  · exact .inl (.inr hi)

theorem Gains.mem_of_mem {leaf : Nat} {shape shape' : ChainShape} (h : Gains leaf shape shape')
    (hi : i ∈ shape.commands) : i ∈ shape'.commands := by
  obtain ⟨pre, mid, post, hcommands, hcommands', -⟩ := h.commands
  rw [hcommands, mem_append] at hi
  rw [hcommands']
  simp only [mem_append]
  exact hi.imp .inl id

/-- Every chain of a tree is there when the tree has one more set. -/
theorem Extends.chain (h : t.Extends t') (ht : t.Ordered) (ht' : t'.Ordered) {shape : ChainShape}
    (hshape : shape ∈ t.chainsFrom 0) :
    ∃ shape' ∈ t'.chainsFrom 0, Gains t.size shape shape' := by
  have hzero : 0 < t.size := by
    obtain ⟨c, hc, -⟩ := ht.first
    exact get?_lt hc
  have hlt := (partition_chainsFrom ht).commands shape hshape _ (root_mem_commands hshape)
  have hmem : shape.root ∈ (t'.chainsFrom 0).map ChainShape.root := by
    have hin := mem_map_of_mem (f := ChainShape.root) hshape
    rw [← h.roots hzero] at hin
    exact (mem_filter.1 hin).1
  obtain ⟨shape', hshape', hroot⟩ := mem_map.1 hmem
  obtain ⟨hsource, hcommands, -⟩ := h.chainAt hlt
  have hnodup := (nodup_flatMap.1 (nodup_commands ht')).1 shape' hshape'
  rw [eq_chainAt_of_mem t' hshape', hroot] at hnodup
  rw [eq_chainAt_of_mem t hshape]
  refine ⟨shape', hshape', by rw [root_chainAt, hroot], ?_, ?_⟩
  · rw [eq_chainAt_of_mem t' hshape', hroot, hsource]
  · rw [eq_chainAt_of_mem t' hshape', hroot]
    exact split_of_filter hnodup hcommands

end CommandTree

end GraphLoad
