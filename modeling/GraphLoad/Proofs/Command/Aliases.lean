/-
Aliases. The texts that are tried for an alias are one more than those that are taken, and differ, so
that one of them is free; a tree gives every set an alias of its own, whatever its entities are called
and in whatever order it grew.
-/
import GraphLoad.Proofs.Command.Growth
import Mathlib.Data.List.Perm.Subperm

namespace GraphLoad

namespace CommandTree

variable {t : CommandTree}

/-! ## A free alias -/

/-- A number can be read back from its text. -/
theorem toString_inj {m n : Nat} (h : toString m = toString n) : m = n := by
  have hdigits : Nat.toDigits 10 m = Nat.toDigits 10 n := by
    rw [← Nat.toList_repr, ← Nat.toList_repr]
    exact congrArg String.toList h
  rw [← @Nat.ofDigitChars_ten_toDigits m, hdigits, Nat.ofDigitChars_ten_toDigits]

theorem nodup_numbered (base : String) (n : Nat) : (numbered base n).Nodup := by
  unfold numbered
  refine List.Nodup.map (fun i j h => ?_) List.nodup_range
  have hsucc : i + 1 = j + 1 := toString_inj ((String.append_right_inj _).1 h)
  omega

/-- Of more texts than are taken one is not taken. -/
theorem exists_not_mem {taken texts : List String} (hnodup : texts.Nodup)
    (hlength : taken.length < texts.length) : ∃ a ∈ texts, a ∉ taken := by
  by_contra hall
  push Not at hall
  have hle := (hnodup.subperm hall).length_le
  omega

theorem freshAlias_not_mem (taken : List String) (base : String) :
    freshAlias taken base ∉ taken := by
  unfold freshAlias
  split
  · obtain ⟨a, ha, hfree⟩ := exists_not_mem (nodup_numbered base (taken.length + 1))
      (by simp [numbered] : taken.length < _)
    cases hfind : (numbered base (taken.length + 1)).find? fun a => !taken.contains a with
    | none =>
      have htaken := List.find?_eq_none.1 hfind a ha
      simp [hfree] at htaken
    | some b => simpa using List.find?_some hfind
  · rename_i hbase
    simpa using hbase

/-! ## The aliases of a tree -/

theorem aliases_push (t : CommandTree) (entity : Entity) (origin : Option Origin) :
    (t.push entity origin).aliases =
      t.aliases ++ [freshAlias t.aliases (entity.name ++ toString (t.size + 1))] :=
  map_push (fun _ _ => rfl) t entity origin

theorem aliases_modify (t : CommandTree) (id : Nat) (f : Modifiers → Modifiers) :
    (t.modify id f).aliases = t.aliases :=
  map_modify (fun _ _ => rfl) t id f

theorem nodup_push (h : t.aliases.Nodup) (entity : Entity) (origin : Option Origin) :
    (t.push entity origin).aliases.Nodup := by
  rw [aliases_push]
  refine List.nodup_append.2 ⟨h, List.nodup_singleton _, fun a ha b hb => ?_⟩
  rw [List.mem_singleton] at hb
  rintro rfl
  exact freshAlias_not_mem _ _ (hb ▸ ha)

/-- Every set of a tree has an alias of its own. -/
theorem Grown.aliases_nodup (h : t.Grown) : t.aliases.Nodup := by
  induction h with
  | start session entity => exact nodup_push (t := ⟨session, []⟩) List.nodup_nil entity none
  | add _ hadd ih =>
    obtain ⟨-, -, -, rfl, -⟩ := add_ok hadd
    exact nodup_push ih _ _
  | modify id f _ ih => rw [aliases_modify]; exact ih

/-- An alias tells which command it belongs to. -/
theorem Grown.alias_inj (h : t.Grown) {i j : Nat} {c d : Command} (hc : t.get? i = some c)
    (hd : t.get? j = some d) (heq : c.aliasName = d.aliasName) : i = j := by
  have hi : t.aliases[i]? = some c.aliasName := by
    rw [aliases, List.getElem?_map, ← get?, hc]; rfl
  have hj : t.aliases[j]? = some c.aliasName := by
    rw [aliases, List.getElem?_map, ← get?, hd, heq]; rfl
  have hlt : i < t.aliases.length := (List.getElem?_eq_some_iff.1 hi).1
  exact (List.getElem?_inj hlt h.aliases_nodup).1 (hi.trans hj.symm)

end CommandTree

end GraphLoad
