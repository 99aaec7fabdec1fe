/-
Lists without their repetitions: of what stands in a list several times only the first one is kept. What
is kept stands once, a further member is kept if it is new, and a map that tells members apart keeps what
it maps.
-/
import Mathlib.Data.List.Induction

namespace GraphLoad

variable {α β : Type} [BEq α] [LawfulBEq α] [BEq β] [LawfulBEq β]

theorem nodup_eraseDups : ∀ xs : List α, xs.eraseDups.Nodup
  | [] => .nil
  | x :: xs => by
    rw [List.eraseDups_cons, List.nodup_cons]
    refine ⟨fun hx => ?_, nodup_eraseDups _⟩
    rw [List.mem_eraseDups, List.mem_filter] at hx
    simp at hx
termination_by xs => xs.length
decreasing_by
  exact Nat.lt_succ_of_le (List.length_filter_le ..)

theorem eraseDups_snoc (xs : List α) (x : α) : (xs ++ [x]).eraseDups =
    if x ∈ xs.eraseDups then xs.eraseDups else xs.eraseDups ++ [x] := by
  rw [List.eraseDups_append]
  have hone : [x].eraseDups = [x] := by rw [List.eraseDups_cons]; rfl
  by_cases h : x ∈ xs
  · simp [List.removeAll, h]
  · simp [List.removeAll, h, hone]

/-- A map that tells the members of a list apart finds the same ones repeated. -/
theorem eraseDups_map {f : α → β} {xs : List α} (hf : ∀ x ∈ xs, ∀ y ∈ xs, f x = f y → x = y) :
    (xs.map f).eraseDups = xs.eraseDups.map f := by
  induction xs using List.reverseRecOn with
  | nil => rfl
  | append_singleton xs x ih =>
    have hprevious := ih fun y hy z hz =>
      hf y (List.mem_append_left _ hy) z (List.mem_append_left _ hz)
    have hmem : f x ∈ (xs.map f).eraseDups ↔ x ∈ xs.eraseDups := by
      rw [List.mem_eraseDups, List.mem_eraseDups]
      refine ⟨fun h => ?_, List.mem_map_of_mem⟩
      obtain ⟨y, hy, heq⟩ := List.mem_map.1 h
      rw [← hf y (List.mem_append_left _ hy) x (List.mem_append_right _ (List.mem_singleton_self x)) heq]
      exact hy
    rw [List.map_append, List.map_singleton, eraseDups_snoc, eraseDups_snoc]
    by_cases h : x ∈ xs.eraseDups
    · rw [if_pos (hmem.2 h), if_pos h, hprevious]
    · rw [if_neg (mt hmem.1 h), if_neg h, List.map_append, List.map_singleton, hprevious]

theorem eraseDups_of_nodup {xs : List α} (h : xs.Nodup) : xs.eraseDups = xs := by
  induction xs using List.reverseRecOn with
  | nil => rfl
  | append_singleton xs x ih =>
    obtain ⟨hxs, -, hapart⟩ := List.nodup_append.1 h
    have hnew : x ∉ xs := fun hx => hapart x hx x (List.mem_singleton_self x) rfl
    rw [eraseDups_snoc, if_neg (mt List.mem_eraseDups.1 hnew), ih hxs]

/-- New members that stand once are all kept. -/
theorem eraseDups_append_of_new {xs ys : List α} (hys : ys.Nodup) (hnew : ∀ y ∈ ys, y ∉ xs) :
    (xs ++ ys).eraseDups = xs.eraseDups ++ ys := by
  have hkept : ys.removeAll xs = ys := List.filter_eq_self.2 fun y hy => by simpa using hnew y hy
  rw [List.eraseDups_append, hkept, eraseDups_of_nodup hys]

end GraphLoad
