/-
Projections against the fields of an entity. A projection goes wrong with the first of its names that is no
field, whatever it does with the names; otherwise it takes fields in the order of their declaration. Only
some fields and all except the same ones make up the entity, and have nothing but its key in common.
-/
import GraphLoad.Request.Projection
import GraphLoad.Proofs.OrderedMap

namespace GraphLoad

/-! ## Names that are no fields -/

namespace Entity

variable {e : Entity} {names : List String} {name : String}

theorem hasField_iff : e.hasField name = true ↔ name ∈ e.fields :=
  e.columns.contains_iff_mem_keys name

theorem nodup_fields (e : Entity) : e.fields.Nodup := e.columns.nodup

/-- The first of some names that is no field of an entity. -/
def FirstMissing (e : Entity) (names : List String) (name : String) : Prop :=
  ∃ before after, names = before ++ name :: after ∧ (∀ n ∈ before, n ∈ e.fields) ∧ name ∉ e.fields

theorem firstMissing_iff :
    names.find? (fun field => !e.hasField field) = some name ↔ e.FirstMissing names name := by
  rw [List.find?_eq_some_iff_append]
  have hhas : ∀ n, (!e.hasField n) = true ↔ n ∉ e.fields := by
    intro n
    rw [← hasField_iff]
    simp
  constructor
  · rintro ⟨hmissing, before, after, rfl, hbefore⟩
    refine ⟨before, after, rfl, fun n hn => ?_, (hhas name).1 hmissing⟩
    exact hasField_iff.1 (by simpa using hbefore n hn)
  · rintro ⟨before, after, rfl, hbefore, hmissing⟩
    refine ⟨(hhas name).2 hmissing, before, after, rfl, fun n hn => ?_⟩
    rw [hasField_iff.2 (hbefore n hn)]
    rfl

/-- Fields stand in the order in which they were first declared; one that is declared again keeps its
place. -/
theorem fields_of_ofDraft {d : Draft} {declared : List (String × String)}
    (hdeclared : d.columns = .ofList declared) (h : ofDraft d = .ok e) :
    e.fields = (declared.map Prod.fst).eraseDups := by
  have hcolumns : e.columns = d.columns := by
    unfold ofDraft at h
    split at h
    · cases h
    · split at h
      · cases h
      · cases h
        rfl
  rw [fields, hcolumns, hdeclared, OrderedMap.keys_ofList]

end Entity

/-! ## Fields that are taken -/

namespace Projection

variable {p : Projection} {e : Entity} {names : List String} {name : String}

/-- Whatever a projection does with its names, the first that is no field is the error. -/
theorem resolve_of_missing (h : e.FirstMissing p.listed name) :
    p.resolve e = .error (.unknownField e.name name) := by
  rw [resolve, Entity.firstMissing_iff.2 h]

theorem resolve_of_fields (h : ∀ n ∈ p.listed, n ∈ e.fields) :
    p.resolve e = .ok (e.fields.filter (p.takes e)) := by
  have hnone : p.listed.find? (fun field => !e.hasField field) = none := by
    refine List.find?_eq_none.2 fun n hn => ?_
    rw [Entity.hasField_iff.2 (h n hn)]
    decide
  rw [resolve, hnone]

theorem missing_or_fields (e : Entity) (names : List String) :
    (∃ name, e.FirstMissing names name) ∨ ∀ n ∈ names, n ∈ e.fields := by
  cases hfind : names.find? fun field => !e.hasField field with
  | some name => exact .inl ⟨name, Entity.firstMissing_iff.1 hfind⟩
  | none =>
    refine .inr fun n hn => Entity.hasField_iff.1 ?_
    simpa using List.find?_eq_none.1 hfind n hn

theorem takes_only : (only names).takes e name = true ↔ name ∈ names ∨ name ∈ e.primaryKey := by
  simp only [takes, Bool.or_eq_true, List.contains_iff_mem]
  exact or_comm

theorem takes_except :
    (except names).takes e name = true ↔ name ∉ names ∨ name ∈ e.primaryKey := by
  simp only [takes, Bool.or_eq_true, Bool.not_eq_true', List.contains_iff_mem,
    ← Bool.not_eq_true (names.contains name)]
  exact or_comm

/-- Fields of an entity by two projections with the same names, of which one takes them and the other
leaves them out. -/
structure Complement (e : Entity) (names taken left : List String) : Prop where
  takenOrdered : taken.Sublist e.fields
  leftOrdered : left.Sublist e.fields
  takenNodup : taken.Nodup
  leftNodup : left.Nodup
  union : ∀ f, f ∈ taken ∨ f ∈ left ↔ f ∈ e.fields
  common : ∀ f, f ∈ taken ∧ f ∈ left ↔ f ∈ e.primaryKey
  taken : ∀ f, f ∈ taken ↔ f ∈ names ∨ f ∈ e.primaryKey

theorem complement_filter (h : ∀ n ∈ names, n ∈ e.fields) :
    Complement e names (e.fields.filter ((only names).takes e))
      (e.fields.filter ((except names).takes e)) := by
  have hkey : ∀ f ∈ e.primaryKey, f ∈ e.fields := e.primaryKey_declared
  refine ⟨List.filter_sublist, List.filter_sublist, e.nodup_fields.filter _,
    e.nodup_fields.filter _, fun f => ?union, fun f => ?common, fun f => ?taken⟩ <;>
      simp only [List.mem_filter, takes_only, takes_except]
  case union =>
    refine ⟨fun hf => hf.elim And.left And.left, fun hf => ?_⟩
    by_cases hnames : f ∈ names
    · exact .inl ⟨hf, .inl hnames⟩
    · exact .inr ⟨hf, .inl hnames⟩
  case common =>
    refine ⟨fun ⟨⟨_, honly⟩, _, hexcept⟩ => ?_, fun hf => ⟨⟨hkey f hf, .inr hf⟩, hkey f hf, .inr hf⟩⟩
    rcases honly with hnames | hf
    · exact hexcept.resolve_left (not_not_intro hnames)
    · exact hf
  case taken =>
    exact ⟨And.right, fun hf => ⟨hf.elim (h f) (hkey f), hf⟩⟩

/-- For an entity that a draft declares, taking only some fields and taking all except them fail together,
with the first name that is no field. Otherwise they are complements of each other. -/
theorem only_complements_except {d : Entity.Draft} {declared : List (String × String)}
    (hdeclared : d.columns = .ofList declared) (hmade : Entity.ofDraft d = .ok e)
    (names : List String) :
    e.fields = (declared.map Prod.fst).eraseDups ∧ all.resolve e = .ok e.fields ∧
    ((∃ name, e.FirstMissing names name ∧
        (only names).resolve e = .error (.unknownField e.name name) ∧
        (except names).resolve e = .error (.unknownField e.name name)) ∨
      (∀ n ∈ names, n ∈ e.fields) ∧ ∃ taken left, (only names).resolve e = .ok taken ∧
        (except names).resolve e = .ok left ∧ Complement e names taken left) := by
  refine ⟨Entity.fields_of_ofDraft hdeclared hmade, ?_, ?_⟩
  · rw [resolve_of_fields fun n hn => (List.not_mem_nil hn).elim]
    exact congrArg Except.ok (List.filter_eq_self.2 fun _ _ => rfl)
  · rcases missing_or_fields e names with ⟨name, hmissing⟩ | hfields
    · exact .inl ⟨name, hmissing, resolve_of_missing hmissing, resolve_of_missing hmissing⟩
    · exact .inr ⟨hfields, _, _, resolve_of_fields hfields, resolve_of_fields hfields,
        complement_filter hfields⟩

/-- Editions by number and language, with the title declared twice. -/
def editionFields : List (String × String) :=
  [("id", "id"), ("title", "title"), ("lang", "lang"), ("year", "year"), ("title", "name")]

/-- The draft of editions. -/
def editionDraft : Entity.Draft where
  name := "EDITION"
  columns := .ofList editionFields
  primaryKey := ["id", "lang"]

/-- Editions. -/
def edition : Entity where
  name := "EDITION"
  table := "edition"
  columns := .ofList editionFields
  primaryKey := ["id", "lang"]
  foreignKeys := .empty
  primaryKey_ne_nil := List.cons_ne_nil _ _
  primaryKey_declared := by decide
  foreignKeys_declared := by decide

/-- A year that is named twice and a part of the key that is named. -/
theorem only_complements_except_edition : editionDraft.columns = .ofList editionFields ∧
    Entity.ofDraft editionDraft = .ok edition ∧ edition.fields = ["id", "title", "lang", "year"] ∧
    (only ["year", "lang", "year"]).resolve edition = .ok ["id", "lang", "year"] ∧
    (except ["year", "lang", "year"]).resolve edition = .ok ["id", "title", "lang"] ∧
    Complement edition ["year", "lang", "year"] ["id", "lang", "year"] ["id", "title", "lang"] := by
  have hmade : Entity.ofDraft editionDraft = .ok edition := by decide +kernel
  have htaken : (only ["year", "lang", "year"]).resolve edition = .ok ["id", "lang", "year"] := by
    decide +kernel
  have hleft : (except ["year", "lang", "year"]).resolve edition = .ok ["id", "title", "lang"] := by
    decide +kernel
  refine ⟨rfl, hmade, by decide +kernel, htaken, hleft, ?_⟩
  obtain ⟨-, -, ⟨name, -, hfails, -⟩ | ⟨-, taken, left, htaken', hleft', hcomplement⟩⟩ :=
    @only_complements_except edition editionDraft editionFields rfl hmade ["year", "lang", "year"]
  · rw [htaken] at hfails
    cases hfails
  · rw [htaken] at htaken'
    rw [hleft] at hleft'
    cases htaken'
    cases hleft'
    exact hcomplement

end Projection

end GraphLoad
