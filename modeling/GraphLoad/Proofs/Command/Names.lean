/-
Aliases as texts. The alias of a set is the name of its entity followed by a number, and perhaps by an
underscore and a further number. So where no two underscores follow each other in the names of
entities, the alias of a pivot, whose parts stand between two underscores, is the alias of no set, and
tells which two sets it stands between.
-/
import GraphLoad.Proofs.Command.Aliases
import Mathlib.Data.List.Chain

namespace GraphLoad

/-! ## Underscores -/

namespace Text

/-- A text in which no two underscores follow each other. -/
def SingleUnderscores (cs : List Char) : Prop := cs.IsChain fun a b => ¬(a = '_' ∧ b = '_')

instance (cs : List Char) : Decidable (SingleUnderscores cs) :=
  inferInstanceAs (Decidable (cs.IsChain fun a b => ¬(a = '_' ∧ b = '_')))

variable {cs ds a b x y : List Char}

theorem SingleUnderscores.left (h : SingleUnderscores (cs ++ ds)) : SingleUnderscores cs :=
  (List.isChain_append.1 h).1

theorem not_single : ¬ SingleUnderscores (a ++ '_' :: '_' :: x) := fun h =>
  (List.isChain_append_cons_cons.1 h).2.1 ⟨rfl, rfl⟩

/-- Behind digits an underscore stands alone. -/
theorem SingleUnderscores.snoc (h : SingleUnderscores cs) (hne : ds ≠ []) (hds : '_' ∉ ds) :
    SingleUnderscores (cs ++ ds ++ ['_']) := by
  have hdigits : SingleUnderscores ds := by
    refine List.Pairwise.isChain (List.pairwise_of_forall_mem_list ?_)
    rintro c hc d - ⟨rfl, -⟩
    exact hds hc
  refine List.isChain_append.2 ⟨List.isChain_append.2 ⟨h, hdigits, ?_⟩, .singleton _, ?_⟩
  · intro _ _ c hc heq
    exact hds (heq.2 ▸ List.mem_of_mem_head? hc)
  · intro c hc _ _ heq
    rw [List.getLast?_append_of_ne_nil _ hne] at hc
    exact hds (heq.1 ▸ List.mem_of_mem_getLast? hc)

/-- Two underscores in a row do not stand earlier than behind the first part. -/
theorem part_le (hb : SingleUnderscores (a ++ cs ++ ['_']))
    (h : '_' :: '_' :: x = cs ++ '_' :: '_' :: y) : cs = [] := by
  match cs with
  | [] => rfl
  | [c] =>
    cases h
    rw [List.append_assoc] at hb
    exact (not_single hb).elim
  | c :: d :: cs =>
    cases h
    rw [List.append_assoc] at hb
    exact (not_single hb).elim

/-- Two underscores in a row tell the parts of a text apart, if the first part has none in a row and
does not end with one. -/
theorem parts_unique (ha : SingleUnderscores (a ++ ['_'])) (hb : SingleUnderscores (b ++ ['_']))
    (h : a ++ '_' :: '_' :: x = b ++ '_' :: '_' :: y) : a = b ∧ x = y := by
  rcases List.append_eq_append_iff.1 h with ⟨cs, rfl, hrest⟩ | ⟨cs, rfl, hrest⟩
  · cases part_le hb hrest
    cases hrest
    exact ⟨(List.append_nil a).symm, rfl⟩
  · cases part_le ha hrest
    cases hrest
    exact ⟨List.append_nil b, rfl⟩

/-- The digits of a number are some, and nothing else is one of them. -/
theorem not_mem_digits {c : Char} (hc : c.isDigit = false) (n : Nat) : c ∉ (toString n).toList := by
  intro h
  rw [show (toString n).toList = Nat.toDigits 10 n from Nat.toList_repr] at h
  have hdigit := Nat.isDigit_of_mem_toDigits (by omega) (by omega) h
  rw [hc] at hdigit
  cases hdigit

theorem digits_ne_nil (n : Nat) : (toString n).toList ≠ [] := by
  rw [show (toString n).toList = Nat.toDigits 10 n from Nat.toList_repr]
  exact Nat.toDigits_ne_nil

end Text

/-! ## Aliases of sets -/

namespace CommandTree

open Text

/-- The texts that aliases of sets of an entity have. -/
def IsAlias (entity aliasName : String) : Prop :=
  ∃ n : Nat, aliasName = entity ++ toString n ∨
    ∃ k : Nat, aliasName = entity ++ toString n ++ "_" ++ toString k

theorem isAlias_freshAlias (taken : List String) (entity : String) (n : Nat) :
    IsAlias entity (freshAlias taken (entity ++ toString n)) := by
  unfold freshAlias
  refine ⟨n, ?_⟩
  split
  · cases hfind : (numbered (entity ++ toString n) (taken.length + 1)).find? fun a =>
        !taken.contains a with
    | none => exact .inl rfl
    | some a =>
      obtain ⟨k, -, rfl⟩ := List.mem_map.1 (List.mem_of_find?_eq_some hfind)
      exact .inr ⟨k + 1, rfl⟩
  · exact .inl rfl

theorem grownBy_aliasName (id : Nat) (o : Option Origin) (i : Nat) (c : Command) :
    (grownBy id o i c).aliasName = c.aliasName := by unfold grownBy; split <;> rfl

theorem isAlias_push {t : CommandTree}
    (ht : ∀ {i c}, t.get? i = some c → IsAlias c.entity.name c.aliasName)
    {entity : Entity} {origin : Option Origin} {i : Nat} {c : Command}
    (hc : (t.push entity origin).get? i = some c) : IsAlias c.entity.name c.aliasName := by
  rcases get?_push_some hc with ⟨-, rfl⟩ | ⟨-, d, hd, rfl⟩
  · exact isAlias_freshAlias ..
  · rw [grownBy_entity, grownBy_aliasName]
    exact ht hd

/-- The sets of a grown tree have such aliases. -/
theorem Grown.isAlias {t : CommandTree} (ht : t.Grown) {i : Nat} {c : Command}
    (hc : t.get? i = some c) : IsAlias c.entity.name c.aliasName := by
  induction ht generalizing i c with
  | start session entity => exact isAlias_push (t := ⟨session, []⟩) (fun h => nomatch h) hc
  | add _ hadd ih =>
    obtain ⟨-, -, -, rfl, -⟩ := add_ok hadd
    exact isAlias_push ih hc
  | modify id f _ ih =>
    rw [get?_modify] at hc
    obtain ⟨d, hd, rfl⟩ := Option.map_eq_some_iff.1 hc
    have hold := ih hd
    split <;> exact hold

/-- An alias has no two underscores in a row if the name of its entity has none, also with an underscore
behind it. -/
theorem IsAlias.single {entity aliasName : String} (h : IsAlias entity aliasName)
    (hentity : SingleUnderscores entity.toList) : SingleUnderscores (aliasName.toList ++ ['_']) := by
  obtain ⟨n, rfl | ⟨k, rfl⟩⟩ := h
  · rw [String.toList_append]
    exact hentity.snoc (digits_ne_nil n) (not_mem_digits rfl n)
  · simp only [String.toList_append]
    exact (hentity.snoc (digits_ne_nil n) (not_mem_digits rfl n)).snoc (digits_ne_nil k)
      (not_mem_digits rfl k)

theorem IsAlias.ne_nil {entity aliasName : String} (h : IsAlias entity aliasName) :
    aliasName.toList ≠ [] := by
  obtain ⟨n, rfl | ⟨k, rfl⟩⟩ := h
  · rw [String.toList_append]
    exact List.append_ne_nil_of_right_ne_nil _ (digits_ne_nil n)
  · rw [String.toList_append]
    exact List.append_ne_nil_of_right_ne_nil _ (digits_ne_nil k)

/-- An alias has no character that is none of the name of its entity, no digit and no underscore. -/
theorem IsAlias.not_mem {entity aliasName : String} (h : IsAlias entity aliasName) {c : Char}
    (hentity : c ∉ entity.toList) (hdigit : c.isDigit = false) (hmark : c ≠ '_') :
    c ∉ aliasName.toList := by
  obtain ⟨n, rfl | ⟨k, rfl⟩⟩ := h
  · simp only [String.toList_append, List.mem_append, not_or]
    exact ⟨hentity, not_mem_digits hdigit n⟩
  · simp only [String.toList_append, List.mem_append, not_or]
    exact ⟨⟨⟨hentity, not_mem_digits hdigit n⟩, by simpa using hmark⟩, not_mem_digits hdigit k⟩

/-- An alias has no colon if the name of its entity has none. -/
theorem IsAlias.colonless {entity aliasName : String} (h : IsAlias entity aliasName)
    (hentity : ':' ∉ entity.toList) : ':' ∉ aliasName.toList :=
  h.not_mem hentity rfl (by decide)

end CommandTree

/-! ## Aliases of pivots -/

namespace Relation

open Text

variable {a b c d e f : String}

theorem toList_pivotAlias (a b e : String) :
    (pivotAlias a b e).toList = a.toList ++ '_' :: '_' :: (b.toList ++ '_' :: '_' :: e.toList) := by
  simp [pivotAlias, String.toList_append]

/-- The alias of a pivot has two underscores in a row. -/
theorem pivotAlias_ne (hc : SingleUnderscores (c.toList ++ ['_'])) : c ≠ pivotAlias a b e := by
  rintro rfl
  rw [toList_pivotAlias] at hc
  exact not_single hc.left

/-- A set of an entity with two underscores in its name can have the alias of a pivot. -/
example : CommandTree.freshAlias ["A1", "B2"] ("A1__B2__P" ++ toString 3) =
    pivotAlias "A1" "B2" "P3" := by decide

/-- The alias of a pivot tells the aliases it stands between. -/
theorem pivotAlias_inj (ha : SingleUnderscores (a.toList ++ ['_']))
    (hb : SingleUnderscores (b.toList ++ ['_'])) (hc : SingleUnderscores (c.toList ++ ['_']))
    (hd : SingleUnderscores (d.toList ++ ['_'])) (h : pivotAlias a b e = pivotAlias c d f) :
    a = c ∧ b = d := by
  have htext := congrArg String.toList h
  rw [toList_pivotAlias, toList_pivotAlias] at htext
  obtain ⟨hfirst, hrest⟩ := parts_unique ha hc htext
  obtain ⟨hsecond, -⟩ := parts_unique hb hd hrest
  exact ⟨String.toList_inj.1 hfirst, String.toList_inj.1 hsecond⟩

end Relation

end GraphLoad
