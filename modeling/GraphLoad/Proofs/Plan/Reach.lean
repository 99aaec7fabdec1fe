/-
What a command tree reaches in a database, and what the statement of a chain brings of it: exactly
the rows that the tree reaches for every set of the chain, each together with exactly the rows it is
linked from. How the tree was cut into chains plays no part in what it reaches.
-/
import GraphLoad.Proofs.Plan.Statement
import GraphLoad.Proofs.Plan.Totality

namespace GraphLoad

open Sql

/-- The rows that a tree reaches for its sets: those of the first set's table that pass its
predicates, and from there whatever relationships lead to. -/
inductive Reach (db : Database) (t : CommandTree) : Nat → Tuple → Prop
  | first {c : Command} {u : Tuple} : t.get? 0 = some c →
      u ∈ db.tuples (.named c.entity.table) → c.Passes db u → Reach db t 0 u
  | step {i : Nat} {c p : Command} {o : Origin} {x y : Tuple} : t.get? i = some c →
      c.origin = some o → t.get? o.parent = some p → Reach db t o.parent x →
      db.Linked o.relation p.aliasName c.aliasName x y → Reach db t i y

/-- A tree whose relationships have join mappings, and of which only the first set has predicates. -/
structure CommandTree.Plain (t : CommandTree) : Prop where
  mapped : ∀ {i c o}, t.get? i = some c → c.origin = some o → o.relation.Mapped
  predicates : ∀ {i c}, t.get? i = some c → i ≠ 0 → c.modifiers.predicates = []

namespace Plan

variable {db : Database} {t : CommandTree} {projections : List (List String)} {shape : ChainShape}
  {chain : Chain}

/-- A part of a list of commands is that of a part of their numbers. -/
theorem filterMap_split {ids : List Nat} {pre post : List Command} {c : Command}
    (h : ids.filterMap t.get? = pre ++ c :: post) :
    ∃ before i after, ids = before ++ i :: after ∧ before.filterMap t.get? = pre ∧
      t.get? i = some c := by
  obtain ⟨before, rest, rfl, hbefore, hrest⟩ := List.filterMap_eq_append_iff.1 h
  obtain ⟨skipped, i, after, rfl, hskipped, hi, -⟩ := List.filterMap_eq_cons_iff.1 hrest
  refine ⟨before ++ skipped, i, after, by rw [List.append_assoc], ?_, hi⟩
  rw [List.filterMap_append, hbefore, List.filterMap_eq_nil_iff.2 hskipped, List.append_nil]

/-- The sets of a chain follow its root. -/
theorem following_of_chain (ht : t.Ordered) (hplain : t.Plain) (hshape : shape ∈ t.chainsFrom 0)
    {root : Command} (hroot : t.get? shape.root = some root) :
    ∃ others, shape.commands.filterMap t.get? = root :: others ∧ Following t root others := by
  obtain ⟨ids, hids⟩ : ∃ ids, shape.commands = shape.root :: ids := by
    have hhead := CommandTree.head?_chainAt t shape.root
    rw [← CommandTree.eq_chainAt_of_mem t hshape] at hhead
    exact List.head?_eq_some_iff.1 hhead
  -- every set after the root comes after the one it is loaded from
  have hlater : ∀ {pre post : List Nat} {i : Nat} {c : Command}, ids = pre ++ i :: post →
      t.get? i = some c → ∃ o p, c.origin = some o ∧ t.get? o.parent = some p ∧
        p ∈ root :: pre.filterMap t.get? := by
    intro pre post i c hsplit hi
    have hall : shape.commands = (shape.root :: pre) ++ i :: post := by rw [hids, hsplit]; rfl
    rcases CommandTree.parent_before ht hshape hall with ⟨hnil, -⟩ | ⟨d, p, hd, hdp, -, hmem⟩
    · cases hnil
    · rw [hi] at hd
      cases hd
      obtain ⟨o, ho, rfl⟩ := Option.map_eq_some_iff.1 hdp
      obtain ⟨-, parent, hparent, -⟩ := ht.sources hi ho
      refine ⟨o, parent, ho, hparent, ?_⟩
      rw [← List.filterMap_cons_some hroot]
      exact List.mem_filterMap.2 ⟨_, hmem, hparent⟩
  refine ⟨ids.filterMap t.get?, by rw [hids, List.filterMap_cons_some hroot], ?_⟩
  constructor
  case apart =>
    intro c hc
    obtain ⟨i, hi, hget⟩ := List.mem_filterMap.1 hc
    rw [ht.ids hget, ht.ids hroot]
    rintro rfl
    have hnodup := (List.nodup_flatMap.1 (CommandTree.nodup_commands ht)).1 shape hshape
    rw [hids] at hnodup
    exact (List.nodup_cons.1 hnodup).1 hi
  case predicates =>
    intro c hc
    obtain ⟨i, hi, hget⟩ := List.mem_filterMap.1 hc
    obtain ⟨pre, post, hsplit⟩ := List.append_of_mem hi
    obtain ⟨o, p, ho, hp, -⟩ := hlater hsplit hget
    refine hplain.predicates hget ?_
    rintro rfl
    rw [ht.origin_first hget] at ho
    cases ho
  case mapped =>
    intro c hc o ho
    obtain ⟨i, -, hi⟩ := List.mem_filterMap.1 hc
    exact hplain.mapped hi ho
  case parents =>
    intro pre c post hsplit o p ho hp
    obtain ⟨before, i, after, hids', rfl, hi⟩ := filterMap_split hsplit
    obtain ⟨o', p', ho', hp', hmem⟩ := hlater hids' hi
    rw [ho] at ho'
    cases ho'
    rw [hp] at hp'
    cases hp'
    exact hmem

/-- The statement of a chain of a plan. -/
theorem compile_written (ht : t.Ordered) (hplain : t.Plain) (hshape : shape ∈ t.chainsFrom 0)
    (h : compile t projections .left shape = .ok chain) (hnodup : chain.query.aliases.Nodup) :
    ∃ root others, t.get? shape.root = some root ∧
      shape.commands.filterMap t.get? = root :: others ∧
      Written db t projections (shape.source.bind t.get?) root (root :: others) chain.query := by
  obtain ⟨-, root, hroot, hwrite⟩ := compile_ok h
  obtain ⟨others, hcommands, hfollowing⟩ := following_of_chain ht hplain hshape hroot
  have hsource := CommandTree.source_eq hshape hroot
  refine ⟨root, others, hroot, hcommands, ?_⟩
  rw [hcommands] at hwrite
  refine writeChain_ok hwrite hnodup (fun q₀ hstart hnodup₀ => ?_) hfollowing
  rw [hsource, Command.parent]
  cases ho : root.origin with
  | none => exact startChain_first hstart ho
  | some o =>
    obtain ⟨-, p, hp, -⟩ := ht.sources hroot ho
    rw [Option.map_some, Option.bind_some, hp]
    exact startChain_later hstart hnodup₀ ho hp (hplain.mapped hroot ho)

end Plan

/-! ## What a tree reaches -/

namespace Reach

variable {db : Database} {t : CommandTree} {i : Nat} {c p : Command} {o : Origin} {x y u : Tuple}

theorem first_iff (ht : t.Ordered) (hc : t.get? 0 = some c) : Reach db t 0 u ↔
    u ∈ db.tuples (.named c.entity.table) ∧ c.Passes db u := by
  refine ⟨fun h => ?_, fun ⟨hu, hpasses⟩ => .first hc hu hpasses⟩
  cases h with
  | first hd hu hpasses =>
    rw [hc] at hd
    cases hd
    exact ⟨hu, hpasses⟩
  | step hd ho _ _ _ =>
    rw [ht.origin_first hd] at ho
    cases ho

theorem mem_tuples (ht : t.Ordered) (hplain : t.Plain) (hc : t.get? i = some c)
    (h : Reach db t i u) : u ∈ db.tuples (.named c.entity.table) := by
  cases h with
  | first hd hu _ =>
    rw [hd] at hc
    cases hc
    exact hu
  | step hd ho hp _ hlinked =>
    rw [hc] at hd
    cases hd
    obtain ⟨catalog, pairs, hmapping⟩ := hplain.mapped hc ho
    rw [(ht.sources hc ho).1]
    exact Relation.mem_tuples_of_linked hmapping hlinked

end Reach

/-! ## What a chain brings -/

namespace Plan

variable {db : Database} {t : CommandTree} {projections : List (List String)} {shape : ChainShape}
  {root : Command} {others : List Command} {q : Select}

/-- Environments of the statement of a chain that start from a row that the tree reaches. -/
def Answers (db : Database) (t : CommandTree) (shape : ChainShape) (q : Select) (env : Env) : Prop :=
  env ∈ db.envs q ∧ ∃ c u, t.get? (shape.source.getD shape.root) = some c ∧
    env c.aliasName = some u ∧ Reach db t (shape.source.getD shape.root) u

/-- The set that a chain starts from stands for a row that the tree reaches. -/
theorem Answers.start {env : Env} (h : Answers db t shape q env) {s : Nat} {p : Command}
    (hstart : shape.source.getD shape.root = s) (hp : t.get? s = some p) {x : Tuple}
    (hx : env p.aliasName = some x) : Reach db t s x := by
  obtain ⟨-, d, u, hd, hu, hreach⟩ := h
  rw [hstart] at hd hreach
  rw [hp] at hd
  cases hd
  rw [hx] at hu
  cases hu
  exact hreach

/-- What environments bring of the sets of a chain. -/
structure Brings (db : Database) (t : CommandTree) (shape : ChainShape) (E : Env → Prop) :
    Prop where
  source : ∀ s p, shape.source = some s → t.get? s = some p → ∀ env, E env →
    ∃ x, env p.aliasName = some x ∧ Reach db t s x
  sets : ∀ i ∈ shape.commands, ∀ c, t.get? i = some c → ∀ y,
    (∃ env, E env ∧ env c.aliasName = some y) ↔ Reach db t i y
  links : ∀ i ∈ shape.commands, ∀ c o p, t.get? i = some c → c.origin = some o →
    t.get? o.parent = some p → ∀ x y,
    (∃ env, E env ∧ env p.aliasName = some x ∧ env c.aliasName = some y) ↔
      Reach db t o.parent x ∧ db.Linked o.relation p.aliasName c.aliasName x y

variable (ht : t.Ordered) (hplain : t.Plain) (hshape : shape ∈ t.chainsFrom 0)
  (hroot : t.get? shape.root = some root)
  (hcommands : shape.commands.filterMap t.get? = root :: others)
  (hwritten : Written db t projections (shape.source.bind t.get?) root (root :: others) q)

include hcommands hwritten in
theorem answers_sound {i : Nat} {c p : Command} {o : Origin} (hi : i ∈ shape.commands)
    (hc : t.get? i = some c) (ho : c.origin = some o) (hp : t.get? o.parent = some p) {env : Env}
    (henv : Answers db t shape q env) {y : Tuple} (hy : env c.aliasName = some y) :
    ∃ x, env p.aliasName = some x ∧ db.Linked o.relation p.aliasName c.aliasName x y := by
  have hmem : c ∈ root :: others := hcommands ▸ List.mem_filterMap.2 ⟨i, hi, hc⟩
  have hedge := List.mem_filterMap.2 ⟨c, hmem, edge?_some db ho hp⟩
  exact hwritten.spans.sound _ hedge env henv.1 y hy

include ht hshape hroot in
theorem get?_start : t.get? (shape.source.getD shape.root) =
    some ((shape.source.bind t.get?).getD root) := by
  cases hs : shape.source with
  | none => exact hroot
  | some s =>
    have hparent := hs
    rw [CommandTree.source_eq hshape hroot] at hparent
    obtain ⟨o, ho, rfl⟩ := Option.map_eq_some_iff.1 hparent
    obtain ⟨-, p, hp, -⟩ := ht.sources hroot ho
    rw [Option.bind_some, hp]
    exact hp

include ht hshape hroot hcommands hwritten in
theorem answers_complete {i : Nat} {c p : Command} {o : Origin} (hi : i ∈ shape.commands)
    (hc : t.get? i = some c) (ho : c.origin = some o) (hp : t.get? o.parent = some p) {env : Env}
    (henv : Answers db t shape q env) {x y : Tuple} (hx : env p.aliasName = some x)
    (hlinked : db.Linked o.relation p.aliasName c.aliasName x y) :
    ∃ env', Answers db t shape q env' ∧ env' p.aliasName = some x ∧ env' c.aliasName = some y := by
  have hmem : c ∈ root :: others := hcommands ▸ List.mem_filterMap.2 ⟨i, hi, hc⟩
  have hedge := List.mem_filterMap.2 ⟨c, hmem, edge?_some db ho hp⟩
  obtain ⟨henvs, d, u, hd, hu, hreach⟩ := henv
  obtain ⟨env', henv', hanchor, hx', hy'⟩ := hwritten.spans.complete _ hedge env henvs x y hx hlinked
  have hstart := get?_start ht hshape hroot
  rw [hd] at hstart
  rw [← Option.some.inj hstart] at hanchor
  exact ⟨env', ⟨henv', d, u, hd, hanchor.trans hu, hreach⟩, hx', hy'⟩

include ht hplain hwritten in
/-- Behind the source, a chain starts with all that its root is linked to. -/
theorem answers_later {s : Nat} {p : Command} {o : Origin} (hs : shape.source = some s)
    (hp : t.get? s = some p) (ho : root.origin = some o) {x y : Tuple} (hx : Reach db t s x)
    (hlinked : db.Linked o.relation p.aliasName root.aliasName x y) :
    ∃ env, Answers db t shape q env ∧ env p.aliasName = some x ∧ env root.aliasName = some y := by
  have hbegun := (hwritten.begun.later p (by rw [hs, Option.bind_some, hp])).2 o ho x
    (hx.mem_tuples ht hplain hp) y hlinked
  obtain ⟨env, henv, hpx, hry⟩ := hbegun
  refine ⟨env, ⟨henv, p, x, ?_, hpx, ?_⟩, hpx, hry⟩
  · rw [hs]; exact hp
  · rw [hs]; exact hx

include ht hshape hcommands hwritten in
theorem reach_of_answers {i : Nat} (hi : i ∈ shape.commands) {c : Command} (hc : t.get? i = some c)
    {env : Env} (henv : Answers db t shape q env) {y : Tuple} (hy : env c.aliasName = some y) :
    Reach db t i y := by
  -- by number: what a set is loaded from has a smaller one
  induction i using Nat.strongRecOn generalizing c y with
  | ind i ih =>
    cases ho : c.origin with
    | none =>
      obtain ⟨rfl, hsource⟩ := CommandTree.root_of_origin ht hshape hi hc ho
      exact henv.start (by rw [hsource, Option.getD_none]) hc hy
    | some o =>
      obtain ⟨-, p, hp, -⟩ := ht.sources hc ho
      obtain ⟨x, hx, hlinked⟩ := answers_sound hcommands hwritten hi hc ho hp henv hy
      refine .step hc ho hp ?_ hlinked
      rcases CommandTree.parent_of_mem ht hshape hi hc ho with ⟨-, hsource⟩ | ⟨hmem, hlt⟩
      · exact henv.start (by rw [hsource, Option.getD_some]) hp hx
      · exact ih _ hlt hmem hp hx

include ht hplain hshape hroot hcommands hwritten in
theorem answers_of_reach {i : Nat} (hi : i ∈ shape.commands) {c : Command} (hc : t.get? i = some c)
    {y : Tuple} (hy : Reach db t i y) :
    ∃ env, Answers db t shape q env ∧ env c.aliasName = some y := by
  induction hy generalizing c with
  | @first d u hd hu hpasses =>
    have ho : c.origin = none := ht.origin_first hc
    have hreach : Reach db t 0 u := .first hd hu hpasses
    obtain ⟨hfirst, hsource⟩ := CommandTree.root_of_origin ht hshape hi hc ho
    have hstart : shape.source.getD shape.root = 0 := by rw [hsource, Option.getD_none, ← hfirst]
    rw [← hfirst, hc] at hroot
    cases hroot
    rw [hc] at hd
    cases hd
    have hbegun := hwritten.begun.first (by rw [hsource, Option.bind_none])
    obtain ⟨env, henv, hcu⟩ := hbegun.2 u hu
    refine ⟨env, ⟨henv, _, u, ?_, hcu, ?_⟩, hcu⟩
    · rw [hstart]; exact hc
    · rw [hstart]; exact hreach
  | @step j d p o x y hd ho hp hx hlinked ih =>
    rw [hc] at hd
    cases hd
    rcases CommandTree.parent_of_mem ht hshape hi hc ho with ⟨rfl, hsource⟩ | ⟨hmem, -⟩
    · rw [hroot] at hc
      cases hc
      obtain ⟨env, henv, -, hy⟩ := answers_later ht hplain hwritten hsource hp ho hx hlinked
      exact ⟨env, henv, hy⟩
    · obtain ⟨env, henv, hpx⟩ := ih hmem hp
      obtain ⟨env', henv', -, hy⟩ :=
        answers_complete ht hshape hroot hcommands hwritten hi hc ho hp henv hpx hlinked
      exact ⟨env', henv', hy⟩

include ht hplain hshape hroot hcommands hwritten in
/-- The statement of a chain brings what the tree reaches for its sets. -/
theorem brings_answers : Brings db t shape (Answers db t shape q) := by
  constructor
  case source =>
    rintro s p hs hp env ⟨-, d, u, hd, hu, hreach⟩
    rw [hs, Option.getD_some] at hd hreach
    rw [hp] at hd
    cases hd
    exact ⟨u, hu, hreach⟩
  case sets =>
    intro i hi c hc y
    refine ⟨fun ⟨env, henv, hy⟩ => ?_, fun hy => ?_⟩
    · exact reach_of_answers ht hshape hcommands hwritten hi hc henv hy
    · exact answers_of_reach ht hplain hshape hroot hcommands hwritten hi hc hy
  case links =>
    intro i hi c o p hc ho hp x y
    constructor
    · rintro ⟨env, henv, hx, hy⟩
      obtain ⟨x', hx', hlinked⟩ := answers_sound hcommands hwritten hi hc ho hp henv hy
      rw [hx] at hx'
      cases hx'
      refine ⟨?_, hlinked⟩
      rcases CommandTree.parent_of_mem ht hshape hi hc ho with ⟨-, hsource⟩ | ⟨hmem, -⟩
      · exact henv.start (by rw [hsource, Option.getD_some]) hp hx
      · exact reach_of_answers ht hshape hcommands hwritten hmem hp henv hx
    · rintro ⟨hx, hlinked⟩
      rcases CommandTree.parent_of_mem ht hshape hi hc ho with ⟨rfl, hsource⟩ | ⟨hmem, -⟩
      · rw [hroot] at hc
        cases hc
        exact answers_later ht hplain hwritten hsource hp ho hx hlinked
      · obtain ⟨env, henv, hpx⟩ :=
          answers_of_reach ht hplain hshape hroot hcommands hwritten hmem hp hx
        exact answers_complete ht hshape hroot hcommands hwritten hi hc ho hp henv hpx hlinked

end Plan

end GraphLoad
