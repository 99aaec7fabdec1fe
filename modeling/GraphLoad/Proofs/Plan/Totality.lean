/-
Every plan of a grown tree is a total partition of it. Main statement: each command stands once in
exactly one chain, each chain starts with its root, every chain but the first is listed once as a
root, by an earlier chain that holds the command it is loaded from; and taking pending roots from a
stack until none is left ends, after as many rounds as there are chains, with those very chains.
-/
import GraphLoad.Proofs.Plan.Cover
import GraphLoad.Proofs.Plan.Making
import Mathlib.Algebra.GroupWithZero.Nat

namespace GraphLoad

open List

/-! ## Partitions -/

/-- Chains that partition a tree. -/
structure Partition (t : CommandTree) (chains : List ChainShape) : Prop where
  once : ∀ id < t.size, ∃ i c, chains[i]? = some c ∧ c.commands.count id = 1 ∧
    ∀ (j : Nat) (d : ChainShape), chains[j]? = some d → id ∈ d.commands → j = i
  commands : ∀ c ∈ chains, ∀ id ∈ c.commands, id < t.size
  starts : ∀ c ∈ chains, c.commands.head? = some c.root
  listed : ∀ c ∈ chains, c.root ≠ 0 → (chains.flatMap ChainShape.roots).count c.root = 1
  earlier : ∀ (i j : Nat) (c d : ChainShape), chains[i]? = some c → chains[j]? = some d →
    d.root ∈ c.roots → i < j ∧ ∃ p, (t.get? d.root).bind Command.parent = some p ∧
      d.source = some p ∧ p ∈ c.commands
  number : chains.length = 1 + (chains.map fun c => c.roots.length).sum

/-- In lists that have nothing in common, a member tells its list. -/
theorem index_of_flatMap_nodup {α β : Type} {f : α → List β} {xs : List α}
    (h : (xs.flatMap f).Nodup) {i j : Nat} {a b : α} (ha : xs[i]? = some a) (hb : xs[j]? = some b)
    {x : β} (hxa : x ∈ f a) (hxb : x ∈ f b) : i = j := by
  obtain ⟨hi, rfl⟩ := List.getElem?_eq_some_iff.1 ha
  obtain ⟨hj, rfl⟩ := List.getElem?_eq_some_iff.1 hb
  have hpair := pairwise_iff_getElem.1 (nodup_flatMap.1 h).2
  rcases Nat.lt_trichotomy i j with hij | hij | hij
  · exact (hpair i j hi hj hij hxa hxb).elim
  · exact hij
  · exact (hpair j i hj hi hij hxb hxa).elim

namespace CommandTree

variable {t : CommandTree}

theorem nodup_commands (ht : t.Ordered) :
    ((t.chainsFrom 0).flatMap ChainShape.commands).Nodup :=
  ((commands_chainsFrom t 0).trans (subtree_zero_perm ht)).nodup_iff.2 nodup_range

theorem root_mem_commands {root : Nat} {c : ChainShape} (hc : c ∈ t.chainsFrom root) :
    c.root ∈ c.commands := by
  have hhead := head?_chainAt t c.root
  rw [← eq_chainAt_of_mem t hc] at hhead
  exact mem_of_mem_head? hhead

theorem nodup_roots (ht : t.Ordered) : ((t.chainsFrom 0).map ChainShape.root).Nodup := by
  rw [Nodup, pairwise_map]
  refine ((nodup_flatMap.1 (nodup_commands ht)).2).imp_of_mem fun ha hb hab heq => ?_
  exact hab (root_mem_commands ha) (heq ▸ root_mem_commands hb)

/-- The chains of a grown tree partition it. -/
theorem partition_chainsFrom (ht : t.Ordered) : Partition t (t.chainsFrom 0) := by
  have hperm := (commands_chainsFrom t 0).trans (subtree_zero_perm ht)
  have hnodup := nodup_commands ht
  have hroots : (0 :: (t.chainsFrom 0).flatMap ChainShape.roots).Nodup :=
    (roots_chainsFrom t 0).nodup_iff.2 (nodup_roots ht)
  constructor
  case once =>
    intro id hid
    obtain ⟨c, hc, hmem⟩ := mem_flatMap.1 (hperm.mem_iff.2 (mem_range.2 hid))
    obtain ⟨i, hi⟩ := getElem?_of_mem hc
    refine ⟨i, c, hi, ?_, fun j d hd hidd => index_of_flatMap_nodup hnodup hd hi hidd hmem⟩
    exact count_eq_one_of_mem ((nodup_flatMap.1 hnodup).1 c hc) hmem
  case commands =>
    intro c hc id hid
    exact mem_range.1 (hperm.mem_iff.1 (mem_flatMap.2 ⟨c, hc, hid⟩))
  case starts =>
    intro c hc
    rw [eq_chainAt_of_mem t hc, root_chainAt]
    exact head?_chainAt t c.root
  case listed =>
    intro c hc h0
    refine count_eq_one_of_mem (nodup_cons.1 hroots).2 ?_
    have hmem := (roots_chainsFrom t 0).mem_iff.2 (mem_map_of_mem hc)
    rcases mem_cons.1 hmem with h | h
    · exact (h0 h).elim
    · exact h
  case earlier =>
    intro i j c d hi hj hroot
    have hd0 : d.root ≠ 0 := fun h0 =>
      (nodup_cons.1 hroots).1 (mem_flatMap.2 ⟨c, mem_of_getElem? hi, h0 ▸ hroot⟩)
    -- the chain that lists the root comes earlier; and there is only one that does
    have hij : i < j := by
      obtain ⟨hj', hjd⟩ := List.getElem?_eq_some_iff.1 hj
      have hsplit : t.chainsFrom 0 = (t.chainsFrom 0).take j ++ d :: (t.chainsFrom 0).drop (j + 1) := by
        rw [← hjd, getElem_cons_drop, take_append_drop]
      rcases listed_before t hsplit with h0 | ⟨e, he, hlist⟩
      · exact (hd0 h0).elim
      · obtain ⟨k, hk, hke⟩ := mem_take_iff_getElem.1 he
        have hkc : (t.chainsFrom 0)[k]? = some e := List.getElem?_eq_some_iff.2 ⟨by omega, hke⟩
        have := index_of_flatMap_nodup (nodup_cons.1 hroots).2 hi hkc hroot hlist
        omega
    -- the walk that found the root met its parent before
    rw [eq_chainAt_of_mem t (mem_of_getElem? hi)] at hroot ⊢
    have hlt := (lt_of_mem_roots_chainAt hroot).2
    obtain ⟨command, hcommand⟩ := get?_of_lt hlt
    rw [eq_chainAt_of_mem t (mem_of_getElem? hj), root_chainAt, source_chainAt hcommand, hcommand]
    refine ⟨hij, ?_⟩
    unfold chainAt at hroot ⊢
    split at hroot
    · cases hroot
    · rename_i root hget
      obtain ⟨e, p, he, hp, hmem⟩ := parent_of_mem_below ht (.inr hroot)
      rw [hcommand] at he
      cases he
      exact ⟨p, hp, hp, mem_cons.2 hmem⟩
  case number =>
    have hlen := (roots_chainsFrom t 0).length_eq
    rw [length_cons, length_map, length_flatMap] at hlen
    omega

/-- The source of a chain belongs to an earlier chain. -/
theorem source_before (ht : t.Ordered) {pre post : List ChainShape} {c : ChainShape}
    (h : t.chainsFrom 0 = pre ++ c :: post) {s : Nat} (hs : c.source = some s) :
    ∃ d ∈ pre, s ∈ d.commands := by
  have hc : c ∈ t.chainsFrom 0 := h ▸ mem_append_right _ (mem_cons_self ..)
  rcases listed_before t h with hroot | ⟨d, hd, hlisted⟩
  · -- the first chain has no source
    obtain ⟨e, he, hnone⟩ := ht.first
    rw [eq_chainAt_of_mem t hc, hroot, source_chainAt he, Command.parent, hnone] at hs
    cases hs
  · obtain ⟨i, hi⟩ := getElem?_of_mem hd
    have hlt := (List.getElem?_eq_some_iff.1 hi).1
    obtain ⟨-, p, -, hp, hmem⟩ := (partition_chainsFrom ht).earlier i pre.length d c
      (by rw [h, getElem?_append_left hlt, hi]) (by rw [h, getElem?_append_right (Nat.le_refl _)]; simp)
      hlisted
    rw [hs] at hp
    cases hp
    exact ⟨d, hd, hmem⟩

/-! ## The stack of pending roots -/

/-- One round over the stack of pending roots and the chains that are done: the chain of the topmost
root is done, and its own roots come on top of the stack, the first one first. -/
def drainRound (t : CommandTree) : List Nat × List ChainShape → List Nat × List ChainShape
  | ([], done) => ([], done)
  | (root :: pending, done) => ((t.chainAt root).roots ++ pending, done ++ [t.chainAt root])

/-- Some rounds, one after the other. -/
def drain (t : CommandTree) : Nat → List Nat × List ChainShape → List Nat × List ChainShape
  | 0, s => s
  | n + 1, s => t.drain n (t.drainRound s)

theorem drain_add (t : CommandTree) (m n : Nat) (s : List Nat × List ChainShape) :
    t.drain (m + n) s = t.drain n (t.drain m s) := by
  induction m generalizing s with
  | zero => rw [Nat.zero_add]; rfl
  | succ m ih => rw [Nat.add_right_comm]; exact ih _

/-- Rounds enough for the chains of a root take it off the stack and leave what lies below it. -/
theorem drain_root (t : CommandTree) (root : Nat) (pending : List Nat) (done : List ChainShape) :
    t.drain (t.chainsFrom root).length (root :: pending, done) =
      (pending, done ++ t.chainsFrom root) := by
  induction root using later_induction t generalizing pending done with
  | step root ih =>
    rw [chainsFrom_eq, length_cons]
    show t.drain _ ((t.chainAt root).roots ++ pending, done ++ [t.chainAt root]) = _
    have hroots : ∀ rs : List Nat, (∀ r ∈ rs, r ∈ (t.chainAt root).roots) → ∀ done',
        t.drain (rs.flatMap t.chainsFrom).length (rs ++ pending, done') =
          (pending, done' ++ rs.flatMap t.chainsFrom) := by
      intro rs
      induction rs with
      | nil => intro _ done'; simp [drain]
      | cons r rs ihr =>
        intro hrs done'
        obtain ⟨h1, h2⟩ := lt_of_mem_roots_chainAt (hrs r (mem_cons_self ..))
        rw [flatMap_cons, length_append, drain_add, cons_append, ih r h1 h2,
          ihr (fun x hx => hrs x (mem_cons_of_mem _ hx)), append_assoc]
    rw [hroots _ (fun _ h => h), append_assoc, singleton_append]

theorem length_chainsFrom_le (ht : t.Ordered) : (t.chainsFrom 0).length ≤ t.size := by
  rw [← length_map (f := ChainShape.root), ← length_range (n := t.size)]
  refine ((subperm_of_subset (nodup_roots ht)) fun r hr => ?_).length_le
  obtain ⟨c, hc, rfl⟩ := mem_map.1 hr
  exact mem_range.2 ((partition_chainsFrom ht).commands c hc _ (root_mem_commands hc))

end CommandTree

namespace Plan

/-- The chains of every plan of a grown tree partition it, whatever is asked of its sets; and the
stack that starts with the first command is empty after as many rounds as the plan has chains, of
which there are at most as many as commands. -/
theorem chains_partition {t : CommandTree} {cfg : Settings} {s s' : Schema} {plan : Plan}
    (ht : t.Grown) (h : make t cfg s = .ok plan s') :
    Partition t (plan.chains.map Chain.toChainShape) ∧
      t.drain plan.chains.length ([0], []) = ([], plan.chains.map Chain.toChainShape) ∧
      plan.chains.length ≤ t.size := by
  obtain ⟨-, hmade⟩ := make_ok (P := fun _ => True) (fun _ _ _ _ _ _ => trivial) trivial h
  have hshapes := hmade.shapes
  have hlen : plan.chains.length = (t.chainsFrom 0).length := by
    rw [← hshapes, length_map]
  rw [hshapes, hlen]
  refine ⟨CommandTree.partition_chainsFrom ht.ordered, ?_, CommandTree.length_chainsFrom_le ht.ordered⟩
  exact CommandTree.drain_root t 0 [] []

/-! ## Authors and their books -/

/-- Authors. -/
def author : Entity where
  name := "AUTHOR"
  table := "author"
  columns := .ofList [("id", "id"), ("name", "name")]
  primaryKey := ["id"]
  foreignKeys := .empty
  primaryKey_ne_nil := Entity.single_ne_nil "id"
  primaryKey_declared := by decide
  foreignKeys_declared := by decide

/-- Books, each by an author. -/
def book : Entity where
  name := "BOOK"
  table := "book"
  columns := .ofList [("id", "id"), ("author_id", "author_id")]
  primaryKey := ["id"]
  foreignKeys := .empty
  primaryKey_ne_nil := Entity.single_ne_nil "id"
  primaryKey_declared := by decide
  foreignKeys_declared := by decide

/-- The books of an author. -/
def books : Relation where
  source := author
  name := "BOOKS"
  target := book
  kind := .oneToMany
  property := "books"
  reverseName := "AUTHOR1"
  reverseDeclared := false
  pivot := none
  mapping := JoinMapping.bind {} "BOOK" "AUTHOR" "id" "author_id"

/-- The author of a book. -/
def writer : Relation where
  source := book
  name := "AUTHOR1"
  target := author
  kind := .manyToOne
  property := "author"
  reverseName := "BOOKS"
  reverseDeclared := false
  pivot := none
  mapping := JoinMapping.bind {} "AUTHOR" "BOOK" "author_id" "id"

/-- Authors with their books in a statement of their own; in that statement also the author of each
book and all books of that author; and in further statements the author twice more, once because a
policy asks for it and once as a window below the fused author. -/
def shelf : CommandTree :=
  let t := CommandTree.start 1 author
  let t := (t.push book (some ⟨0, books⟩)).modify 1 fun m => { m with policy := .root }
  let t := t.push author (some ⟨1, writer⟩)
  let t := (t.push book (some ⟨2, books⟩)).modify 3 fun m => { m with policy := .slave }
  let t := (t.push author (some ⟨1, writer⟩)).modify 4 fun m => { m with policy := .root }
  (t.push author (some ⟨3, writer⟩)).modify 5 fun m => { m with page := { offset := some 1 } }

theorem grown_push {t : CommandTree} (ht : t.Grown) (parent : Nat) (relation : Relation)
    (h : (t.get? parent).map (fun c => c.entity.name) = some relation.source.name) :
    (t.push relation.target (some ⟨parent, relation⟩)).Grown := by
  obtain ⟨source, hs, hn⟩ := Option.map_eq_some_iff.1 h
  refine @CommandTree.Grown.add t _ parent t.size relation ht ?_
  simp only [CommandTree.add, hs, hn, if_true]

theorem grown_shelf : shelf.Grown := by
  dsimp only [shelf]
  refine .modify 5 _ (grown_push ?_ 3 writer rfl)
  refine .modify 4 _ (grown_push ?_ 1 writer rfl)
  refine .modify 3 _ (grown_push ?_ 2 books rfl)
  refine grown_push ?_ 1 writer rfl
  exact .modify 1 _ (grown_push (.start 1 author) 0 books rfl)

/-- The six commands of the shelf in four chains. -/
theorem chains_partition_shelf : shelf.Grown ∧
    ∃ plan s', make shelf {} { catalog := .ofList [author, book] } = .ok plan s' ∧
      plan.chains.map (·.commands) = [[0], [1, 2, 3], [5], [4]] ∧
      Partition shelf (plan.chains.map Chain.toChainShape) ∧
      shelf.drain plan.chains.length ([0], []) = ([], plan.chains.map Chain.toChainShape) ∧
      plan.chains.length ≤ shelf.size := by
  refine ⟨grown_shelf, ?_⟩
  have hcommands : (shelf.chainsFrom 0).map ChainShape.commands = [[0], [1, 2, 3], [5], [4]] := by
    decide +kernel
  cases h : make shelf {} { catalog := .ofList [author, book] } with
  | ok plan s' =>
    refine ⟨plan, s', rfl, ?_, chains_partition grown_shelf h⟩
    obtain ⟨-, hmade⟩ := make_ok (P := fun _ => True) (fun _ _ _ _ _ _ => trivial) trivial h
    rw [← hcommands, ← hmade.shapes, map_map]
    rfl
  | error e s' =>
    have hok : (make shelf {} { catalog := .ofList [author, book] } matches .ok ..) = true := by
      decide +kernel
    rw [h] at hok
    cases hok

end Plan

end GraphLoad
