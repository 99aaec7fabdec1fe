/-
Chain policies. They say how a tree is cut into chains and nothing else: whatever policies the sets of
a tree are given, it is a tree that sessions build, and it reaches the same rows.
-/
import GraphLoad.Proofs.Plan.Reach

namespace GraphLoad

open Sql

/-- The command under a policy. -/
def Command.withPolicy (c : Command) (policy : ChainPolicy) : Command :=
  { c with modifiers := { c.modifiers with policy } }

namespace CommandTree

/-- The tree with a policy for each of its sets. -/
def withPolicies (t : CommandTree) (f : Nat → ChainPolicy) : CommandTree :=
  { t with commands := t.commands.map fun c => c.withPolicy (f c.id) }

variable {t : CommandTree} {f : Nat → ChainPolicy} {i : Nat}

theorem get?_withPolicies : (t.withPolicies f).get? i = (t.get? i).map fun c => c.withPolicy (f c.id) :=
  List.getElem?_map ..

theorem get?_withPolicies_some {c : Command} (h : t.get? i = some c) :
    (t.withPolicies f).get? i = some (c.withPolicy (f c.id)) := by
  rw [get?_withPolicies, h, Option.map_some]

theorem get?_of_withPolicies {c : Command} (h : (t.withPolicies f).get? i = some c) :
    ∃ d, t.get? i = some d ∧ c = d.withPolicy (f d.id) := by
  rw [get?_withPolicies] at h
  obtain ⟨d, hd, rfl⟩ := Option.map_eq_some_iff.1 h
  exact ⟨d, hd, rfl⟩

theorem size_withPolicies (t : CommandTree) (f : Nat → ChainPolicy) :
    (t.withPolicies f).size = t.size :=
  List.length_map ..

/-! ## Giving policies one by one -/

theorem get?_foldl_modify (f : Nat → ChainPolicy) (ids : List Nat) (t : CommandTree) (j : Nat) :
    (ids.foldl (fun t i => t.modify i fun m => { m with policy := f i }) t).get? j =
      (t.get? j).map fun c => if j ∈ ids then c.withPolicy (f j) else c := by
  induction ids generalizing t with
  | nil => simp
  | cons i ids ih =>
    rw [List.foldl_cons, ih, get?_modify, Option.map_map]
    refine congrArg (Option.map · (t.get? j)) (funext fun c => ?_)
    by_cases hi : i = j
    · subst hi
      by_cases hmem : i ∈ ids <;> simp [hmem, Command.withPolicy]
    · by_cases hmem : j ∈ ids <;> simp [hmem, hi, Ne.symm hi]

theorem grown_foldl_modify {t : CommandTree} (ht : t.Grown) (f : Nat → ChainPolicy) (ids : List Nat) :
    (ids.foldl (fun t i => t.modify i fun m => { m with policy := f i }) t).Grown := by
  induction ids generalizing t with
  | nil => exact ht
  | cons i ids ih => exact ih (.modify i _ ht)

theorem session_foldl_modify (f : Nat → ChainPolicy) (ids : List Nat) (t : CommandTree) :
    (ids.foldl (fun t i => t.modify i fun m => { m with policy := f i }) t).session = t.session := by
  induction ids generalizing t with
  | nil => rfl
  | cons i ids ih => exact ih _

/-- Sessions build trees under any policies. -/
theorem Grown.withPolicies (ht : t.Grown) (f : Nat → ChainPolicy) : (t.withPolicies f).Grown := by
  have heq : t.withPolicies f =
      (List.range t.size).foldl (fun t i => t.modify i fun m => { m with policy := f i }) t := by
    have hcommands : (t.withPolicies f).commands = ((List.range t.size).foldl
        (fun t i => t.modify i fun m => { m with policy := f i }) t).commands := by
      refine List.ext_getElem? fun j => ?_
      show (t.withPolicies f).get? j = _
      rw [get?_withPolicies]
      refine Eq.trans ?_ (get?_foldl_modify f (List.range t.size) t j).symm
      cases hc : t.get? j with
      | none => rfl
      | some c =>
        rw [Option.map_some, Option.map_some, if_pos (List.mem_range.2 (get?_lt hc)),
          ht.ordered.ids hc]
    have hsession := session_foldl_modify f (List.range t.size) t
    show (⟨t.session, (t.withPolicies f).commands⟩ : CommandTree) = _
    rw [hcommands, ← hsession]
  rw [heq]
  exact grown_foldl_modify ht f (List.range t.size)

/-! ## What is reached -/

variable {db : Database} {u : Tuple}

theorem reach_of_withPolicies (h : Reach db (t.withPolicies f) i u) : Reach db t i u := by
  induction h with
  | first hc hu hpasses =>
    obtain ⟨d, hd, rfl⟩ := get?_of_withPolicies hc
    exact .first hd hu hpasses
  | step hc ho hp _ hlinked ih =>
    obtain ⟨d, hd, rfl⟩ := get?_of_withPolicies hc
    obtain ⟨e, he, rfl⟩ := get?_of_withPolicies hp
    exact .step hd ho he ih hlinked

theorem reach_withPolicies : Reach db (t.withPolicies f) i u ↔ Reach db t i u := by
  refine ⟨reach_of_withPolicies, fun h => ?_⟩
  induction h with
  | first hc hu hpasses => exact .first (get?_withPolicies_some hc) hu hpasses
  | step hc ho hp _ hlinked ih =>
    exact .step (get?_withPolicies_some hc) ho (get?_withPolicies_some hp) ih hlinked

theorem Plain.withPolicies (ht : t.Plain) (f : Nat → ChainPolicy) : (t.withPolicies f).Plain := by
  constructor
  · intro i c o hc ho
    obtain ⟨d, hd, rfl⟩ := get?_of_withPolicies hc
    exact ht.mapped hd ho
  · intro i c hc hi
    obtain ⟨d, hd, rfl⟩ := get?_of_withPolicies hc
    have hnone := ht.predicates hd hi
    exact hnone

end CommandTree

end GraphLoad
