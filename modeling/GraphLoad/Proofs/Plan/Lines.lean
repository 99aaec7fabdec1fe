/-
The lines of an outline. A chain is shown by a line that opens it, a line for each of its sets and the line
of its statement, all behind the spaces of its depth. Shown here: what the lines of commands that are there
say; and that where no name breaks a word and no statement a line, the text is read back line by line: how
far a line is indented, and the word it starts with.
-/
import GraphLoad.Plan.Outline
import GraphLoad.Proofs.Command.Names
import GraphLoad.Proofs.Request.Order
import GraphLoad.Proofs.Text.Words

namespace GraphLoad

open List Text

/-- An alias is a word if no character of the name of its entity is a blank. -/
theorem CommandTree.IsAlias.word {entity aliasName : String} (h : IsAlias entity aliasName)
    (hentity : ∀ c ∈ entity.toList, isBlank c = false) : ∀ c ∈ aliasName.toList, isBlank c = false := by
  intro c hc
  by_cases hfollower : OrderTerm.isFollower c = true
  · exact OrderTerm.not_blank hfollower
  · -- neither a digit nor an underscore, so it is from the name
    by_contra hblank
    refine h.not_mem (fun hmem => hblank (hentity c hmem)) ?_ ?_ hc
    · rw [← Bool.not_eq_true]
      intro hdigit
      exact hfollower (by simp [OrderTerm.isFollower, Char.isAlphanum, hdigit])
    · rintro rfl
      exact hfollower (by decide)

namespace Plan

variable {p : Plan} {chain : Chain} {depth i s : Nat} {c root source parent : Command} {o : Origin}

/-! ## What a line says -/

theorem aliasOf_of_get? (hc : p.tree.get? i = some c) : p.aliasOf i = c.aliasName := by
  rw [aliasOf, hc, Option.map_some, Option.getD_some]

theorem entityOf_of_get? (hc : p.tree.get? i = some c) : p.entityOf i = c.entity.name := by
  rw [entityOf, hc, Option.map_some, Option.getD_some]

/-- A chain that starts anew is opened with the alias of its root and the entity. -/
theorem headLine_of_none (hroot : p.tree.get? chain.root = some root) (hsource : chain.source = none) :
    p.headLine chain = "chain " ++ root.aliasName ++ " (" ++ root.entity.name ++ ")" := by
  rw [headLine, aliasOf_of_get? hroot, entityOf_of_get? hroot, hsource]
  simp only [String.append_assoc]

/-- Another one is opened with the alias of its root and that of the set whose keys it starts from. -/
theorem headLine_of_some (hroot : p.tree.get? chain.root = some root) (hsource : chain.source = some s)
    (hs : p.tree.get? s = some source) :
    p.headLine chain = "chain " ++ root.aliasName ++ " (keys of " ++ source.aliasName ++ ")" := by
  rw [headLine, aliasOf_of_get? hroot, hsource]
  simp only [aliasOf_of_get? hs, String.append_assoc]

/-- The first set is shown with its entity. -/
theorem commandLine_of_none (ho : c.origin = none) :
    p.commandLine c = c.aliasName ++ " [" ++ c.entity.name ++ "]" := by
  rw [commandLine, ho]

/-- Another set is shown with the set it is loaded from and the relationship followed, and with the
cardinality of that and the policy of the set. -/
theorem commandLine_of_some (ho : c.origin = some o) (hp : p.tree.get? o.parent = some parent) :
    p.commandLine c = c.aliasName ++ " <- " ++ parent.aliasName ++ "." ++ o.relation.name ++ " [" ++
      o.relation.cardinality.text ++ ", " ++ c.modifiers.policy.name ++ "]" := by
  rw [commandLine, ho]
  simp only [aliasOf_of_get? hp]

/-! ## The lines of a chain -/

/-- The spaces of a depth. -/
def pad (depth : Nat) : String := String.join (replicate depth "  ")

theorem pad_succ (depth : Nat) : pad (depth + 1) = pad depth ++ "  " := by
  rw [pad, replicate_succ', String.join_append]
  rfl

theorem toList_pad (depth : Nat) : (pad depth).toList = replicate (2 * depth) ' ' := by
  induction depth with
  | zero => rfl
  | succ depth ih =>
    rw [pad_succ, String.toList_append, ih, Nat.mul_succ, replicate_add]
    rfl

/-- The lines of a chain. -/
def chainLines (p : Plan) (depth : Nat) (chain : Chain) : List String :=
  (pad depth ++ p.headLine chain) ::
    (chain.commands.filterMap p.tree.get?).map (fun c => pad depth ++ "  " ++ p.commandLine c) ++
    [pad depth ++ "  sql: " ++ (chain.query.build p.settings.dialect).text]

/-- A chain is shown as its lines, each with its end. -/
theorem chainText_eq (p : Plan) (depth : Nat) (chain : Chain) :
    p.chainText depth chain = String.join ((p.chainLines depth chain).map (· ++ "\n")) := by
  have hempty : String.join [] = "" := rfl
  simp only [chainText, chainLines, pad, List.map_append, List.map_cons, List.map_map, List.map_nil,
    String.join_append, String.join_cons, String.append_assoc, Function.comp_def, hempty,
    String.append_empty]

/-- How the lines of a chain start: the line that opens it with a word of its own, the lines of its sets
with their aliases, and the line of its statement with a word of its own. -/
def chainLeads (p : Plan) (depth : Nat) (chain : Chain) : List (Nat × String) :=
  (2 * depth, "chain") :: chain.commands.map (fun i => (2 * depth + 2, p.aliasOf i)) ++
    [(2 * depth + 2, "sql:")]

/-- A plan that is shown without breaks: the names of its entities are words, and neither a name of a
relationship nor a statement has a line break. -/
structure Unbroken (p : Plan) : Prop where
  entities : ∀ c ∈ p.tree.commands, ∀ x ∈ c.entity.name.toList, isBlank x = false
  relations : ∀ c ∈ p.tree.commands, ∀ o ∈ c.origin, '\n' ∉ o.relation.name.toList
  statements : ∀ chain ∈ p.chains, '\n' ∉ (chain.query.build p.settings.dialect).text.toList

/-! ## Reading the lines back -/

/-- Behind the spaces of a depth a line starts with the word that a blank ends. -/
theorem lead_padded (depth : Nat) {line w : String} {rest : List Char}
    (hline : line.toList = w.toList ++ ' ' :: rest) (hne : w.toList ≠ [])
    (hw : ∀ x ∈ w.toList, isBlank x = false) : lead (pad depth ++ line) = (2 * depth, w) := by
  have hchars : (pad depth ++ line).toList = replicate (2 * depth) ' ' ++ w.toList ++ ' ' :: rest := by
    rw [String.toList_append, toList_pad, hline, List.append_assoc]
  rw [lead_line hchars hne hw, String.ofList_toList]

theorem lead_headLine (p : Plan) (depth : Nat) (chain : Chain) :
    lead (pad depth ++ p.headLine chain) = (2 * depth, "chain") := by
  have hline : ∃ rest, (p.headLine chain).toList = "chain".toList ++ ' ' :: rest := by
    unfold headLine
    exact ⟨_, by simp only [String.toList_append, List.append_assoc]; rfl⟩
  obtain ⟨rest, hrest⟩ := hline
  exact lead_padded depth hrest (by decide) (word_of_any (by decide))

/-- The line of a set starts with its alias. -/
theorem lead_commandLine (p : Plan) (depth : Nat) (hne : c.aliasName.toList ≠ [])
    (hword : ∀ x ∈ c.aliasName.toList, isBlank x = false) :
    lead (pad depth ++ "  " ++ p.commandLine c) = (2 * depth + 2, c.aliasName) := by
  have hline : ∃ rest, (p.commandLine c).toList = c.aliasName.toList ++ ' ' :: rest := by
    unfold commandLine
    split <;> exact ⟨_, by simp only [String.toList_append, List.append_assoc]; rfl⟩
  obtain ⟨rest, hrest⟩ := hline
  rw [← pad_succ]
  exact lead_padded (depth + 1) hrest hne hword

theorem lead_statement (depth : Nat) (text : String) :
    lead (pad depth ++ "  sql: " ++ text) = (2 * depth + 2, "sql:") := by
  have hpad : pad depth ++ "  sql: " ++ text = pad (depth + 1) ++ ("sql: " ++ text) := by
    rw [pad_succ, String.append_assoc, String.append_assoc]
    rfl
  have hline : ("sql: " ++ text).toList = "sql:".toList ++ ' ' :: text.toList := String.toList_append
  rw [hpad]
  exact lead_padded (depth + 1) hline (by decide) (word_of_any (by decide))

theorem not_newline {s : String} (h : ∀ x ∈ s.toList, isBlank x = false) : '\n' ∉ s.toList :=
  fun hmem => absurd (h '\n' hmem) (by decide)

section
variable (hp : p.Unbroken)
  (halias : ∀ c ∈ p.tree.commands, CommandTree.IsAlias c.entity.name c.aliasName)
include hp halias

theorem Unbroken.alias_word (hc : c ∈ p.tree.commands) : ∀ x ∈ c.aliasName.toList, isBlank x = false :=
  (halias c hc).word (hp.entities c hc)

theorem Unbroken.newline_aliasOf (i : Nat) : '\n' ∉ (p.aliasOf i).toList := by
  cases hc : p.tree.get? i with
  | none =>
    rw [aliasOf, hc]
    exact not_mem_nil
  | some c =>
    rw [aliasOf_of_get? hc]
    exact not_newline (hp.alias_word halias (mem_of_getElem? hc))

theorem Unbroken.newline_headLine (chain : Chain) : '\n' ∉ (p.headLine chain).toList := by
  have hentity : '\n' ∉ (p.entityOf chain.root).toList := by
    cases hc : p.tree.get? chain.root with
    | none =>
      rw [entityOf, hc]
      exact not_mem_nil
    | some c =>
      rw [entityOf_of_get? hc]
      exact not_newline (hp.entities c (mem_of_getElem? hc))
  unfold headLine
  cases chain.source <;> simp [hp.newline_aliasOf halias, hentity]

theorem Unbroken.newline_commandLine (hc : c ∈ p.tree.commands) :
    '\n' ∉ (p.commandLine c).toList := by
  have hown := not_newline (hp.alias_word halias hc)
  cases ho : c.origin with
  | none =>
    rw [commandLine_of_none ho]
    simp [hown, not_newline (hp.entities c hc)]
  | some o =>
    have hrelation := hp.relations c hc o ho
    have hcardinality : '\n' ∉ o.relation.cardinality.text.toList := by
      cases o.relation.cardinality <;> decide
    have hpolicy : '\n' ∉ c.modifiers.policy.name.toList := by
      cases c.modifiers.policy <;> decide
    rw [commandLine, ho]
    simp [hown, hp.newline_aliasOf halias, hrelation, hcardinality, hpolicy]

theorem Unbroken.newline_chainLines (hchain : chain ∈ p.chains) (depth : Nat) :
    ∀ line ∈ p.chainLines depth chain, '\n' ∉ line.toList := by
  have hpad : '\n' ∉ (pad depth).toList := by
    rw [toList_pad]
    intro hmem
    exact absurd (eq_of_mem_replicate hmem) (by decide)
  intro line hline
  rcases mem_append.1 hline with hline | hline
  · rcases mem_cons.1 hline with rfl | hline
    · simp [hpad, hp.newline_headLine halias]
    · obtain ⟨c, hc, rfl⟩ := mem_map.1 hline
      obtain ⟨i, -, hi⟩ := mem_filterMap.1 hc
      simp [hpad, hp.newline_commandLine halias (mem_of_getElem? hi)]
  · rw [mem_singleton.1 hline]
    simp [hpad, hp.statements chain hchain]

/-- The lines of a chain start as they are to, where all its numbers are those of commands. -/
theorem Unbroken.map_lead_chainLines (depth : Nat)
    (hlisted : ∀ i ∈ chain.commands, ∃ c, p.tree.get? i = some c) :
    (p.chainLines depth chain).map lead = p.chainLeads depth chain := by
  have hcommands : (chain.commands.filterMap p.tree.get?).map
        (fun c => lead (pad depth ++ "  " ++ p.commandLine c)) =
      chain.commands.map fun i => (2 * depth + 2, p.aliasOf i) := by
    rw [map_filterMap, ← filterMap_eq_map]
    refine filterMap_congr fun i hi => ?_
    obtain ⟨c, hc⟩ := hlisted i hi
    have hmem := mem_of_getElem? hc
    rw [hc, Option.map_some, lead_commandLine p depth (halias c hmem).ne_nil (hp.alias_word halias hmem),
      Function.comp_apply, aliasOf_of_get? hc]
  simp only [chainLines, chainLeads, map_append, map_cons, map_map, map_nil, lead_headLine, lead_statement,
    Function.comp_def, hcommands]

/-- A text made of chains is read back as the starts of their lines. -/
theorem Unbroken.map_lead_pieces {shown : List (Nat × Chain)}
    (hshown : ∀ x ∈ shown, x.2 ∈ p.chains ∧ ∀ i ∈ x.2.commands, ∃ c, p.tree.get? i = some c) :
    (pieces '\n' (String.join (shown.map fun x => p.chainText x.1 x.2))).map lead =
      (shown.flatMap fun x => p.chainLeads x.1 x.2) ++ [(0, "")] := by
  have htext : String.join (shown.map fun x => p.chainText x.1 x.2) =
      String.join ((shown.flatMap fun x => p.chainLines x.1 x.2).map (· ++ "\n")) := by
    simp only [← String.toList_inj, String.toList_join, flatMap_map, map_flatMap, flatMap_assoc,
      chainText_eq]
  have hlines : ∀ line ∈ shown.flatMap fun x => p.chainLines x.1 x.2, '\n' ∉ line.toList := by
    intro line hline
    obtain ⟨x, hx, hline⟩ := mem_flatMap.1 hline
    exact hp.newline_chainLines halias (hshown x hx).1 x.1 line hline
  have hlead : lead "" = (0, "") := by decide
  rw [htext, pieces_lines hlines, map_append, map_singleton, hlead, map_flatMap]
  congr 1
  exact flatMap_congr fun x hx => hp.map_lead_chainLines halias x.1 (hshown x hx).2

end

end Plan

end GraphLoad
