/-
Names as they stand in statements. A name is told to a dialect by itself, if it is an identifier and no
reserved word, or in the quotes of the dialect. Shown here: result labels always are; a table or a column
is, except that one dialect has other quotes than those it gets and that a name which is empty or starts
with a digit gets none; an alias is if it is an identifier that has a digit or an underscore.
-/
import GraphLoad.Proofs.Sql.Token

namespace GraphLoad.Sql

/-! ## Quotes -/

/-- The character that encloses names in a dialect. -/
def Dialect.quote : Dialect → Char
  | postgres => '\x22'
  | mysql => '\x60'
  | sqlite => '\x22'

theorem Dialect.isQuote (d : Dialect) : IsQuote d.quote := by
  cases d
  · exact .inl rfl
  · exact .inr rfl
  · exact .inl rfl

theorem Dialect.quoteLabel_eq (d : Dialect) (label : String) :
    d.quoteLabel label = enclose d.quote label := by
  cases d <;> rfl

/-- A text by which a name is told to a dialect. -/
def Dialect.Spells (d : Dialect) (name text : String) : Prop :=
  (text = name ∧ OrderTerm.isIdentifier name = true ∧ Text.lower name ∉ reservedWords) ∨
    text = enclose d.quote name

variable {d : Dialect} {name text : String}

/-- A text that tells a name is read as the name. -/
theorem Dialect.Spells.lex (h : d.Spells name text) :
    Sql.lex d.quote text.toList = some [.word name] ∨ Sql.lex d.quote text.toList = some [.name name] := by
  obtain ⟨rfl, hname, -⟩ | rfl := h
  · exact .inl (lex_word d.isQuote hname)
  · exact .inr (lex_enclose d.isQuote name)

/-- Labels are told in any dialect. -/
theorem spells_quoteLabel (d : Dialect) (label : String) : d.Spells label (d.quoteLabel label) :=
  .inr (d.quoteLabel_eq label)

/-- What is in quotes is not what was enclosed. -/
theorem enclose_ne (q : Char) (s : String) : enclose q s ≠ s := by
  intro heq
  have hlength : s.toList.length ≤ (s.toList.flatMap fun c => if c = q then [q, q] else [c]).length := by
    generalize s.toList = cs
    induction cs with
    | nil => simp
    | cons c cs ih =>
      rw [List.flatMap_cons, List.length_append, List.length_cons]
      split
      · rw [List.length_cons, List.length_singleton]
        omega
      · rw [List.length_singleton]
        omega
  have hboth := congrArg (fun t : String => t.toList.length) heq
  simp only [enclose, String.toList_ofList, List.length_append, List.length_cons, List.length_nil] at hboth
  omega

/-! ## Tables and columns -/

/-- A table or a column that is told to a dialect: it needs no quotes and is an identifier, or it needs
them and they are those of the dialect. -/
def Dialect.Safe (d : Dialect) (name : String) : Prop :=
  if needsQuotes name then d ≠ .mysql else OrderTerm.isIdentifier name = true

instance (d : Dialect) : DecidablePred d.Safe := fun name =>
  inferInstanceAs (Decidable (if needsQuotes name = true then d ≠ .mysql else _))

theorem spells_nameText_iff : d.Spells name (nameText name) ↔ d.Safe name := by
  unfold Dialect.Spells Dialect.Safe nameText
  by_cases hquotes : needsQuotes name = true
  · simp only [hquotes, if_true, quoteName]
    constructor
    · rintro (⟨heq, -⟩ | heq) rfl
      · exact enclose_ne _ _ heq
      · have hchars := congrArg String.toList heq
        simp [enclose, Dialect.quote] at hchars
    · intro hd
      cases d
      · exact .inr rfl
      · exact absurd rfl hd
      · exact .inr rfl
  · rw [if_neg hquotes, if_neg hquotes]
    constructor
    · rintro (⟨-, hname, -⟩ | heq)
      · exact hname
      · exact absurd heq.symm (enclose_ne _ _)
    · intro hname
      refine .inl ⟨rfl, hname, fun hreserved => hquotes ?_⟩
      simp [needsQuotes, hreserved]

/-! ## Aliases -/

/-- An alias that is told as it stands. -/
def Bare (aliasName : String) : Prop :=
  OrderTerm.isIdentifier aliasName = true ∧ Text.lower aliasName ∉ reservedWords

theorem Bare.spells {a : String} (h : Bare a) (d : Dialect) : d.Spells a a := .inl ⟨rfl, h⟩

theorem spells_self_iff {a : String} : d.Spells a a ↔ Bare a := by
  constructor
  · rintro (⟨-, h⟩ | heq)
    · exact h
    · exact absurd heq.symm (enclose_ne _ _)
  · intro h
    exact h.spells d

/-- Digits and underscores have no case. -/
theorem toLower_marked {c : Char} (h : c = '_' ∨ c.isDigit = true) :
    Text.Case.lowerChar c = [c] ∧ c ≠ Text.Case.sigma := by
  rcases h with rfl | h
  · decide
  have hdigit := h
  simp only [Char.isDigit, ge_iff_le, Bool.and_eq_true, decide_eq_true_eq,
    UInt32.le_iff_toNat_le] at hdigit
  have hnine : '9'.val.toNat = 57 := rfl
  have hupper : 'A'.val.toNat = 65 := rfl
  have hascii : c.toNat < 128 := by
    have htoNat : c.toNat = c.val.toNat := rfl
    omega
  have hlower : c.toLower = c := by
    unfold Char.toLower
    rw [dif_neg]
    rintro ⟨hle, -⟩
    rw [ge_iff_le, UInt32.le_iff_toNat_le] at hle
    omega
  constructor
  · rw [Text.Case.lowerChar, if_pos hascii, hlower]
  · rintro rfl
    exact absurd h (by decide)

/-- A digit or an underscore stays when a text is put into lower case. -/
theorem mem_lowerFrom {c : Char} (h : c = '_' ∨ c.isDigit = true) {before cs : List Char} (hc : c ∈ cs) :
    c ∈ Text.Case.lowerFrom before cs := by
  induction cs generalizing before with
  | nil => cases hc
  | cons x cs ih =>
    rw [Text.Case.lowerFrom]
    rcases List.mem_cons.1 hc with rfl | hc
    · obtain ⟨hlower, hsigma⟩ := toLower_marked h
      rw [if_neg hsigma, hlower]
      exact List.mem_cons_self ..
    · split
      · exact List.mem_cons_of_mem _ (ih hc)
      · exact List.mem_append_right _ (ih hc)

/-- No reserved word has a digit or an underscore. -/
theorem not_reserved {c : Char} (h : c = '_' ∨ c.isDigit = true) (hc : c ∈ name.toList) :
    Text.lower name ∉ reservedWords := by
  intro hreserved
  have hplain : (reservedWords.all fun w => w.toList.all fun c => c != '_' && !c.isDigit) = true := by
    decide +kernel
  have hmem : c ∈ (Text.lower name).toList := by
    rw [Text.lower, String.toList_ofList]
    exact mem_lowerFrom h hc
  have hletter := List.all_eq_true.mp (List.all_eq_true.mp hplain _ hreserved) c hmem
  rw [Bool.and_eq_true, bne_iff_ne, Bool.not_eq_true'] at hletter
  obtain ⟨hunderscore, hdigit⟩ := hletter
  rcases h with h | h
  · exact hunderscore h
  · rw [hdigit] at h
    cases h

theorem all_isFollower {s : String} (h : OrderTerm.isIdentifier s = true) :
    s.toList.all OrderTerm.isFollower = true := by
  unfold OrderTerm.isIdentifier at h
  split at h
  · cases h
  · rename_i c cs hs
    simp only [Bool.and_eq_true, OrderTerm.isStart, Bool.or_eq_true] at h
    simp only [hs, List.all_cons, Bool.and_eq_true]
    refine ⟨?_, h.2⟩
    rcases h.1 with halpha | hunderscore
    · simp [OrderTerm.isFollower, Char.isAlphanum, halpha]
    · simp [OrderTerm.isFollower, hunderscore]

/-- An identifier stays one with further characters of names behind it. -/
theorem isIdentifier_append {s t : String} (hs : OrderTerm.isIdentifier s = true)
    (ht : t.toList.all OrderTerm.isFollower = true) : OrderTerm.isIdentifier (s ++ t) = true := by
  unfold OrderTerm.isIdentifier at hs ⊢
  rw [String.toList_append]
  cases hchars : s.toList with
  | nil => rw [hchars] at hs; cases hs
  | cons c cs =>
    rw [hchars, Bool.and_eq_true] at hs
    simp only [List.cons_append, List.all_append, Bool.and_eq_true]
    exact ⟨hs.1, hs.2, ht⟩

end GraphLoad.Sql
