/-
The search for a free alias. It tries the alias wished for and then that alias with the numbers from 1
on, without a bound; as the texts differ, it ends at the latest with one more of them than are taken, and
the alias that a set is given is the text it ends with. So all sets of a tree have aliases of their own,
which they keep in everything that becomes of the tree.
-/
import GraphLoad.Proofs.Command.Aliases
import GraphLoad.Proofs.Plan.Totality
import Mathlib.Data.Nat.Find

namespace GraphLoad

namespace CommandTree

variable {t t' : CommandTree} {taken : List String}

/-! ## The search -/

/-- The texts that are tried for an alias, one after the other. -/
def candidate (base : String) : Nat → String
  | 0 => base
  | k + 1 => base ++ "_" ++ toString (k + 1)

/-- The search for an alias ends with its candidate `k`: this one is free, and all before it are taken. -/
structure EndsAt (taken : List String) (base : String) (k : Nat) : Prop where
  free : candidate base k ∉ taken
  before : ∀ j < k, candidate base j ∈ taken

theorem candidate_inj {base : String} {i j : Nat} (h : candidate base i = candidate base j) :
    i = j := by
  -- a number makes the text longer
  have hlonger : ∀ k, base ≠ candidate base (k + 1) := by
    intro k heq
    have hlength := congrArg String.length heq
    rw [candidate, String.length_append, String.length_append] at hlength
    have hone : "_".length = 1 := rfl
    omega
  match i, j with
  | 0, 0 => rfl
  | 0, k + 1 => exact (hlonger k h).elim
  | k + 1, 0 => exact (hlonger k h.symm).elim
  | i + 1, j + 1 => exact toString_inj ((String.append_right_inj _).1 h)

/-- Of the candidates one more is tried than texts are taken, at most. -/
theorem exists_endsAt (taken : List String) (base : String) :
    ∃ k ≤ taken.length, EndsAt taken base k := by
  have hnodup : ((List.range (taken.length + 1)).map (candidate base)).Nodup :=
    List.nodup_range.map fun _ _ h => candidate_inj h
  obtain ⟨a, ha, hfree⟩ := @exists_not_mem taken _ hnodup (by simp)
  obtain ⟨k, hk, rfl⟩ := List.mem_map.1 ha
  have hexists : ∃ k, candidate base k ∉ taken := ⟨k, hfree⟩
  refine ⟨Nat.find hexists, ?_, Nat.find_spec hexists, fun j hj => ?_⟩
  · exact Nat.le_trans (Nat.find_min' hexists hfree) (Nat.le_of_lt_succ (List.mem_range.1 hk))
  · exact not_not.1 (Nat.find_min hexists hj)

/-- An alias is given as the search finds it. -/
theorem EndsAt.freshAlias_eq {base : String} {k : Nat} (h : EndsAt taken base k)
    (hk : k ≤ taken.length) : freshAlias taken base = candidate base k := by
  unfold freshAlias
  match k with
  | 0 =>
    have hfree : base ∉ taken := h.free
    rw [if_neg (by simpa using hfree)]
    rfl
  | k + 1 =>
    have htaken : base ∈ taken := h.before 0 (Nat.succ_pos k)
    have hfind : (List.range (taken.length + 1)).find? (fun j => !taken.contains (candidate base (j + 1)))
        = some k := by
      rw [List.find?_range_eq_some]
      refine ⟨by simpa using h.free, List.mem_range.2 (by omega), fun j hj => ?_⟩
      simpa using h.before (j + 1) (by omega)
    rw [if_pos (by simpa using htaken), numbered, List.find?_map]
    show ((List.find? (fun j => !taken.contains (candidate base (j + 1))) _).map _).getD base = _
    rw [hfind]
    rfl

/-! ## What becomes of a tree -/

/-- What a tree becomes as sets are added and as anything is asked of its sets. -/
inductive Grows (t : CommandTree) : CommandTree → Prop
  | refl : Grows t t
  | add {t' t'' : CommandTree} {parent id : Nat} {relation : Relation} :
      Grows t t' → t'.add parent relation = .ok (t'', id) → Grows t t''
  | modify {t' : CommandTree} (id : Nat) (f : Modifiers → Modifiers) :
      Grows t t' → Grows t (t'.modify id f)

theorem Grows.grown (h : t.Grows t') (ht : t.Grown) : t'.Grown := by
  induction h with
  | refl => exact ht
  | add _ hadd ih => exact .add ih hadd
  | modify id f _ ih => exact .modify id f ih

/-- A set that is added gets its alias behind those that are there. -/
theorem aliases_add {parent id : Nat} {relation : Relation}
    (hadd : t.add parent relation = .ok (t', id)) : t'.aliases =
      t.aliases ++ [freshAlias t.aliases (relation.target.name ++ toString (t.size + 1))] := by
  obtain ⟨-, -, -, rfl, -⟩ := add_ok hadd
  exact aliases_push ..

theorem Grows.aliases (h : t.Grows t') : t.aliases <+: t'.aliases := by
  induction h with
  | refl => exact List.prefix_refl _
  | add _ hadd ih =>
    rw [aliases_add hadd]
    exact ih.trans (List.prefix_append _ _)
  | modify id f _ ih =>
    rw [aliases_modify]
    exact ih

/-- The sets of a tree have aliases of their own, and keep them whatever becomes of the tree. The alias of
a set that is added is the first candidate that is free, and the search for it tries at most one candidate
more than the tree has commands, whatever the entities are called. -/
theorem aliases_settled (ht : t.Grown) :
    t.aliases.Nodup ∧
    (∀ t', t.Grows t' → t'.aliases.Nodup ∧ t.aliases <+: t'.aliases) ∧
    (∀ base, ∃ k, k + 1 ≤ t.size + 1 ∧ EndsAt t.aliases base k ∧
      freshAlias t.aliases base = candidate base k) ∧
    ∀ t' parent relation id, t.add parent relation = .ok (t', id) → ∃ k,
      EndsAt t.aliases (relation.target.name ++ toString (t.size + 1)) k ∧
      t'.aliases = t.aliases ++ [candidate (relation.target.name ++ toString (t.size + 1)) k] := by
  have hsearch : ∀ base, ∃ k, k + 1 ≤ t.size + 1 ∧ EndsAt t.aliases base k ∧
      freshAlias t.aliases base = candidate base k := by
    intro base
    obtain ⟨k, hk, hends⟩ := exists_endsAt t.aliases base
    refine ⟨k, ?_, hends, hends.freshAlias_eq hk⟩
    rw [aliases, List.length_map] at hk
    exact Nat.succ_le_succ hk
  refine ⟨ht.aliases_nodup, fun t' h => ⟨(h.grown ht).aliases_nodup, h.aliases⟩, hsearch, ?_⟩
  intro t' parent relation id hadd
  obtain ⟨k, -, hends, halias⟩ := hsearch (relation.target.name ++ toString (t.size + 1))
  exact ⟨k, hends, by rw [aliases_add hadd, halias]⟩

/-! ## Names that run into numbers -/

theorem key_declared : ∀ field ∈ ["id"], field ∈ (OrderedMap.ofList [("id", "id")]).keys := by decide

theorem none_declared : ∀ key ∈ (OrderedMap.empty : OrderedMap String (OrderedMap String String)).values,
    ∀ field ∈ key.keys, field ∈ (OrderedMap.ofList [("id", "id")]).keys := by decide

/-- An entity of a name, with its key alone. -/
def bareEntity (name : String) : Entity where
  name
  table := name
  columns := .ofList [("id", "id")]
  primaryKey := ["id"]
  foreignKeys := .empty
  primaryKey_ne_nil := Entity.single_ne_nil "id"
  primaryKey_declared := key_declared
  foreignKeys_declared := none_declared

/-- Objects of one entity that have the number of one of another. -/
def sameNumbers (source target : String) : Relation where
  source := bareEntity source
  name := target
  target := bareEntity target
  kind := .oneToMany
  property := target
  reverseName := source
  reverseDeclared := false
  pivot := none
  mapping := JoinMapping.bind {} target source "id" "id"

/-- Sets of the entities `A12_`, `A1` and, from the third one on, `A`. -/
def crowd : Nat → CommandTree
  | 0 => (start 1 (bareEntity "A12_")).push (bareEntity "A1") (some ⟨0, sameNumbers "A12_" "A1"⟩)
  | n + 1 => (crowd n).push (bareEntity "A") (some ⟨0, sameNumbers "A12_" "A"⟩)

theorem root_crowd (n : Nat) :
    ((crowd n).get? 0).map (fun c => c.entity.name) = some "A12_" := by
  induction n with
  | zero => rfl
  | succ n ih =>
    obtain ⟨root, hroot, hname⟩ := Option.map_eq_some_iff.1 ih
    rw [crowd, get?_push_of_some hroot, Option.map_some, grownBy_entity, hname]

theorem grown_crowd : ∀ n, (crowd n).Grown
  | 0 => Plan.grown_push (.start 1 _) 0 (sameNumbers "A12_" "A1") rfl
  | n + 1 => Plan.grown_push (grown_crowd n) 0 (sameNumbers "A12_" "A") (root_crowd n)

/-- The twelfth set would be called as the second one is, and its first substitute as the first. -/
theorem aliases_settled_crowd : (crowd 9).Grown ∧ (crowd 9).Grows (crowd 10) ∧
    (crowd 10).aliases = ["A12_1", "A12", "A3", "A4", "A5", "A6", "A7", "A8", "A9", "A10", "A11",
      "A12_2"] ∧
    (crowd 10).aliases.Nodup ∧ (crowd 9).aliases <+: (crowd 10).aliases ∧
    ∃ k, EndsAt (crowd 9).aliases "A12" k ∧
      (crowd 10).aliases = (crowd 9).aliases ++ [candidate "A12" k] := by
  have hadd : (crowd 9).add 0 (sameNumbers "A12_" "A") = .ok (crowd 10, (crowd 9).size) := by
    obtain ⟨root, hroot, hname⟩ := Option.map_eq_some_iff.1 (root_crowd 9)
    simp only [add, hroot, hname]
    rfl
  have hgrows : (crowd 9).Grows (crowd 10) := .add .refl hadd
  obtain ⟨-, hkept, -, hadded⟩ := aliases_settled (grown_crowd 9)
  have hbase : (sameNumbers "A12_" "A").target.name ++ toString ((crowd 9).size + 1) = "A12" := by
    decide +kernel
  obtain ⟨k, hends, halias⟩ := hadded _ _ _ _ hadd
  rw [hbase] at hends halias
  exact ⟨grown_crowd 9, hgrows, by decide +kernel, (hkept _ hgrows).1, (hkept _ hgrows).2, k, hends,
    halias⟩

end CommandTree

end GraphLoad
