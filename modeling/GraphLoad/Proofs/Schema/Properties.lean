/-
The properties that relationships keep their objects in. By convention a property is the name of the
target in lower case, with an `s` if it holds a collection. Main statement: so two relationships of an
entity share a property just if both hold collections, or both one object, and their targets read the
same in lower case, or if one holds a collection and the target of the other reads like that collection;
and linking along one changes a property of the other only then. Two names of one target share it.
-/
import GraphLoad.Proofs.Schema.Conditions
import GraphLoad.Proofs.Object.Retention

namespace GraphLoad

/-! ## Lower case before a letter -/

namespace Text

namespace Case

/-- A last `S` makes the lower-case form longer by one character, whatever stands before the text. -/
theorem length_lowerFrom_append (before before' cs : List Char) :
    (lowerFrom before (cs ++ ['S'])).length = (lowerFrom before' cs).length + 1 := by
  induction cs generalizing before before' with
  | nil => rfl
  | cons c cs ih =>
    rw [List.cons_append, lowerFrom, lowerFrom]
    split
    · rw [List.length_cons, List.length_cons, ih (c :: before) (c :: before')]
    · rw [List.length_append, List.length_append, ih (c :: before) (c :: before'), Nat.add_assoc]

/-- A last `S` is a letter of its own; it changes what stands before it only where that ends in a capital
sigma, which is not the last of its word any more. -/
theorem lowerFrom_append_letter (before cs : List Char) :
    ∃ ds, lowerFrom before (cs ++ ['S']) = ds ++ ['s'] ∧ (sigma ∉ cs → ds = lowerFrom before cs) := by
  induction cs generalizing before with
  | nil =>
    have hletter : ¬ 'S' = sigma := by decide
    refine ⟨[], ?_, fun _ => rfl⟩
    rw [List.nil_append, lowerFrom, if_neg hletter]
    rfl
  | cons c cs ih =>
    obtain ⟨ds, hds, hsame⟩ := ih (c :: before)
    rw [List.cons_append, lowerFrom, hds]
    split
    · rename_i hsigma
      exact ⟨_, (List.cons_append ..).symm, fun hnot => (hnot (hsigma ▸ List.mem_cons_self ..)).elim⟩
    · rename_i hsigma
      refine ⟨lowerChar c ++ ds, (List.append_assoc ..).symm, fun hnot => ?_⟩
      rw [lowerFrom, if_neg hsigma, hsame fun h => hnot (List.mem_cons_of_mem _ h)]

end Case

/-- The lower-case form of a text as it is written before an `s`. -/
def stem (s : String) : String := String.ofList (Case.lowerFrom [] (s.toList ++ ['S'])).dropLast

theorem lower_append_letter (s : String) : lower (s ++ "S") = stem s ++ "s" := by
  obtain ⟨ds, hds, -⟩ := Case.lowerFrom_append_letter [] s.toList
  have hletters : (s ++ "S").toList = s.toList ++ ['S'] := String.toList_append
  apply String.toList_inj.1
  rw [lower, stem, hletters, hds, List.dropLast_concat, String.toList_append, String.toList_ofList,
    String.toList_ofList]
  rfl

/-- Without a capital sigma the lower-case form is the same wherever it is written. -/
theorem stem_eq_lower {s : String} (h : Case.sigma ∉ s.toList) : stem s = lower s := by
  obtain ⟨ds, hds, hsame⟩ := Case.lowerFrom_append_letter [] s.toList
  rw [stem, hds, List.dropLast_concat, hsame h, lower]

theorem length_stem (s : String) : (stem s).length = (lower s).length := by
  have hlength : (lower (s ++ "S")).length = (lower s).length + 1 := by
    have hletters : (s ++ "S").toList = s.toList ++ ['S'] := String.toList_append
    rw [lower, lower, String.length_ofList, String.length_ofList, hletters,
      Case.length_lowerFrom_append]
  rw [lower_append_letter, String.length_append] at hlength
  exact Nat.add_right_cancel hlength

end Text

/-! ## What a property is called -/

/-- A name is the name of its target and the character that tells its kind. -/
theorem RelationKind.baseName_append_suffix (name : String) :
    baseName name ++ String.ofList (ofName name).suffixChar.toList = name := by
  have hsplit : ∀ c, name.toList.getLast? = some c →
      String.ofList name.toList.dropLast ++ String.ofList [c] = name := fun c hc => by
    apply String.toList_inj.1
    rw [String.toList_append, String.toList_ofList, String.toList_ofList]
    exact List.dropLast_append_getLast? c hc
  unfold baseName ofName
  split
  case h_4 => exact String.append_empty
  all_goals exact hsplit _ ‹_›

namespace Relation

variable {catalog : Catalog} {entity name : String} {r r' : Relation}

/-- The name of the target in lower case, as the property of the relationship begins. -/
def stem (r : Relation) : String :=
  if r.kind = .oneToMany then Text.stem r.target.name else Text.lower r.target.name

/-- The property of a relationship by convention: an `s` makes it that of a collection. -/
theorem property_of_build (h : build catalog entity name none = .ok r) :
    r.property = r.stem ++ if r.isMany then "s" else "" := by
  obtain ⟨pairs, hbuilt⟩ := build_ok h
  have hproperty : r.property = conventionalProperty r.kind name := by
    unfold build at h
    obtain ⟨source, -, h⟩ := except_bind_ok h
    obtain ⟨target, -, h⟩ := except_bind_ok h
    obtain ⟨pairs, -, h⟩ := except_bind_ok h
    obtain ⟨⟨pivot, mapping⟩, -, h⟩ := except_bind_ok h
    cases h
    rfl
  have hkind : r.kind = RelationKind.ofName name := hbuilt.kind
  have htarget : r.target.name = RelationKind.baseName name := Catalog.name_of_find? hbuilt.target
  have hname := RelationKind.baseName_append_suffix name
  rw [← htarget, ← hkind] at hname
  rw [hproperty]
  unfold isMany stem conventionalProperty
  rw [← htarget]
  cases hk : r.kind <;> rw [hk] at hname
  case manyToMany => rfl
  case manyToOne => exact String.append_empty.symm
  case oneToMany =>
    have hletter : r.target.name ++ "S" = name := hname
    show Text.lower name = Text.stem r.target.name ++ "s"
    rw [← Text.lower_append_letter, hletter]
  case oneToOne =>
    have hplain : r.target.name ++ "" = name := hname
    rw [String.append_empty] at hplain
    show Text.lower name = Text.lower r.target.name ++ ""
    rw [String.append_empty, hplain]

theorem length_stem (r : Relation) : r.stem.length = (Text.lower r.target.name).length := by
  unfold stem
  split
  · exact Text.length_stem _
  · rfl

theorem stem_eq_lower (h : Text.Case.sigma ∉ r.target.name.toList) :
    r.stem = Text.lower r.target.name := by
  unfold stem
  split
  · exact Text.stem_eq_lower h
  · rfl

/-- Whether two relationships read the same as properties: they name the same in lower case and hold
collections both or neither, or one is named as the other's collection. -/
def Homonyms (r r' : Relation) : Prop :=
  (r.isMany = r'.isMany ∧ r.stem = r'.stem) ∨
    (r.isMany = true ∧ r'.isMany = false ∧ r'.stem = r.stem ++ "s") ∨
    (r.isMany = false ∧ r'.isMany = true ∧ r.stem = r'.stem ++ "s")

theorem property_eq_iff (h : r.property = r.stem ++ if r.isMany then "s" else "")
    (h' : r'.property = r'.stem ++ if r'.isMany then "s" else "") :
    r.property = r'.property ↔ r.Homonyms r' := by
  rw [h, h', Homonyms]
  cases r.isMany <;> cases r'.isMany <;> simp [eq_comm]

/-- A collection of a target is not called like one of its objects. -/
theorem not_homonyms_of_target (htarget : r.target = r'.target) (hmany : r.isMany ≠ r'.isMany) :
    ¬ r.Homonyms r' := by
  have hlength : r.stem.length = r'.stem.length := by rw [length_stem, length_stem, htarget]
  rintro (⟨hsame, -⟩ | ⟨-, -, hstem⟩ | ⟨-, -, hstem⟩)
  · exact hmany hsame
  all_goals
    rw [hstem, String.length_append] at hlength
    exact absurd hlength (by rw [show "s".length = 1 from rfl]; omega)

/-- Two names of one target that hold collections, or one object, are called alike. -/
theorem homonyms_of_target (htarget : r.target = r'.target) (hmany : r.isMany = r'.isMany)
    (hsigma : Text.Case.sigma ∉ r.target.name.toList) : r.Homonyms r' :=
  .inl ⟨hmany, by rw [stem_eq_lower hsigma, stem_eq_lower (htarget ▸ hsigma), htarget]⟩

end Relation

/-! ## What linking changes -/

/-- A linking in which only given properties were written. -/
def Links.WritesOnly (properties : List String) (l l' : Links) : Prop :=
  ∀ i p, p ∉ properties → l'.store.related? i p = l.store.related? i p

theorem Links.WritesOnly.refl (properties : List String) (l : Links) : l.WritesOnly properties l :=
  fun _ _ _ => rfl

theorem Links.WritesOnly.trans {properties : List String} {l l' l'' : Links}
    (h : l.WritesOnly properties l') (h' : l'.WritesOnly properties l'') : l.WritesOnly properties l'' :=
  fun i p hp => (h' i p hp).trans (h i p hp)

/-- Giving a property a target leaves every other property. -/
theorem ObjectStore.related?_related_of_ne (s : ObjectStore) (isMany : Bool) (i : Nat) {p q : String}
    (target : Option Nat) (j : Nat) (hq : q ≠ p) :
    (s.related isMany i p target).related? j q = s.related? j q := by
  cases ha : s.get? i with
  | none => exact related?_absent ha isMany p target j q
  | some a =>
    by_cases hnothing : isMany = false ∧ target = none
    · obtain ⟨rfl, rfl⟩ := hnothing
      rfl
    · obtain ⟨v, hv, -⟩ := related?_related ha isMany p target fun hm ht => hnothing ⟨hm, ht⟩
      rw [hv, if_neg fun h => hq h.2]

namespace Relation

variable {r : Relation} {policy : ConflictPolicy} {sourceAlias targetAlias back : String} {source : Nat}

/-- Reporting a conflict, whichever way it ends, leaves the store. -/
theorem reportConflict_store {object previous : Nat} {property : String} (l : Links) :
    Ends (fun _ l' => l'.store = l.store) (fun _ l' => l'.store = l.store)
      (r.reportConflict policy object previous property l) := by
  cases policy <;> exact rfl

/-- The target is given to its property also where that is a conflict which ends the linking. -/
theorem linkForward_store {target : Option Nat} (l : Links) :
    Ends (fun _ l' => l'.store = l.store.related r.isMany source r.property target)
      (fun _ l' => l'.store = l.store.related r.isMany source r.property target)
      (r.linkForward policy source target l) := by
  unfold linkForward
  refine Ends.bind (P := fun l₁ l₂ => l = l₁ ∧ l = l₂) ⟨rfl, rfl⟩ ?_
  rintro _ _ ⟨rfl, rfl⟩
  cases r.isMany <;> cases target
  case true.some target => exact (apply_ite Links.store ..).trans (ite_self _)
  case true.none => exact rfl
  case false.none => exact rfl
  case false.some target =>
    refine Ends.bind (P := fun _ (l₁ : Links) => l₁.store =
      l.store.related false source r.property (some target)) rfl fun _ l₁ h₁ => ?_
    rw [← h₁]
    exact reportReplaced_ends (modify Links.count) (fun _ => reportConflict_store l₁) rfl

theorem linkBack_store {target : Nat} (l : Links) :
    Ends (fun _ l' => l'.store = l.store.related false target back (some source))
      (fun _ l' => l'.store = l.store.related false target back (some source))
      (r.linkBack policy back source target l) := by
  unfold linkBack
  refine Ends.bind (P := fun l₁ l₂ => l = l₁ ∧ l = l₂) ⟨rfl, rfl⟩ ?_
  rintro _ _ ⟨rfl, rfl⟩
  refine Ends.bind (P := fun _ (l₁ : Links) => l₁.store =
    l.store.related false target back (some source)) rfl fun _ l₁ h₁ => ?_
  rw [← h₁]
  exact reportReplaced_ends (pure ()) (fun _ => reportConflict_store l₁) rfl

/-- Linking writes the property of the relationship and that of its way back, and no other. -/
theorem link_writesOnly {reverse : Option Relation} {rows : List Row} :
    Moves (Links.WritesOnly (r.property :: (backProperty reverse).toList))
      (r.link sourceAlias targetAlias reverse policy rows) := by
  generalize hwritten : r.property :: (backProperty reverse).toList = properties
  have hgiven : ∀ {l l' : Links} {isMany : Bool} {i : Nat} {p : String} {target : Option Nat},
      p ∈ properties → l'.store = l.store.related isMany i p target → l.WritesOnly properties l' :=
    fun hp hstore j q hq => by
      rw [hstore]
      exact ObjectStore.related?_related_of_ne _ _ _ _ j fun heq => hq (heq ▸ hp)
  refine Moves.forM (.refl _) .trans fun row _ => ?_
  unfold linkRow
  refine Moves.bind .trans (Moves.lift (.refl _) _) fun source => ?_
  cases source with
  | none => exact Moves.pure (.refl _) _
  | some source =>
    refine Moves.bind .trans (Moves.lift (.refl _) _) fun target => ?_
    refine Moves.bind .trans (fun l => ?_) fun _ => ?_
    · have hproperty : r.property ∈ properties := hwritten ▸ List.mem_cons_self ..
      exact (linkForward_store l).imp (fun _ _ => hgiven hproperty) fun _ _ => hgiven hproperty
    · cases hback : backProperty reverse <;> cases target
      case some.some back target =>
        have hproperty : back ∈ properties := by simp [← hwritten, hback]
        exact fun l => (linkBack_store l).imp (fun _ _ => hgiven hproperty) fun _ _ => hgiven hproperty
      all_goals exact Moves.pure (.refl _) _

end Relation

namespace Schema

/-- Every relationship without a definition has the property of the convention. -/
theorem property_of_relation {s s' : Schema} {entity name : String} {r : Relation} (hs : s.Reachable)
    (h : Schema.relation entity name s = .ok r s') (hnone : s.definitions.get? (entity, name) = none) :
    r.property = r.stem ++ if r.isMany then "s" else "" := by
  obtain ⟨hresolves, hget⟩ := relation_ok h
  have hbuild := hresolves.coherent hs.coherent _ _ _ hget
  rw [build_eq hresolves, build, hnone] at hbuild
  exact Relation.property_of_build hbuild

/-- Two names without a definition that resolve on an entity share a property just if they read the same.
A collection of a target never reads like one of its objects; two collections of a target, or two names
for one of its objects, always do, unless the target is written with a capital sigma. Linking along one
of two relationships that read differently leaves the property of the other, except by the way back. -/
theorem property_shared_iff {s s₁ s₂ : Schema} {entity name name' : String} {r r' : Relation}
    (hs : s.Reachable) (h : Schema.relation entity name s = .ok r s₁)
    (h' : Schema.relation entity name' s = .ok r' s₂) (hnone : s.definitions.get? (entity, name) = none)
    (hnone' : s.definitions.get? (entity, name') = none) :
    (r.property = r'.property ↔ r.Homonyms r') ∧
      (r.target = r'.target → r.isMany ≠ r'.isMany → r.property ≠ r'.property) ∧
      (r.target = r'.target → r.isMany = r'.isMany → Text.Case.sigma ∉ r.target.name.toList →
        r.property = r'.property) ∧
      (¬ r.Homonyms r' → ∀ sourceAlias targetAlias reverse policy rows l i,
        Relation.backProperty reverse ≠ some r'.property →
        (leaves (r.link sourceAlias targetAlias reverse policy rows) l).store.related? i r'.property =
          l.store.related? i r'.property) := by
  have hshared := Relation.property_eq_iff (property_of_relation hs h hnone)
    (property_of_relation hs h' hnone')
  refine ⟨hshared, fun htarget hmany => ?_, fun htarget hmany hsigma => ?_, fun hapart => ?_⟩
  · exact fun hsame => Relation.not_homonyms_of_target htarget hmany (hshared.1 hsame)
  · exact hshared.2 (Relation.homonyms_of_target htarget hmany hsigma)
  · intro sourceAlias targetAlias reverse policy rows l i hback
    refine Relation.link_writesOnly.leaves l i _ fun hmem => ?_
    rcases List.mem_cons.1 hmem with hsame | hmem
    · exact hapart (hshared.1 hsame.symm)
    · exact hback (Option.mem_toList.1 hmem)

/-- Which author has a part in which book. -/
def authorship : Entity where
  name := "AUTHOR2BOOK"
  table := "author2book"
  columns := .ofList [("author_id", "author_id"), ("book_id", "book_id")]
  primaryKey := ["author_id", "book_id"]
  foreignKeys := .empty
  primaryKey_ne_nil := by decide
  primaryKey_declared := by decide
  foreignKeys_declared := by decide

/-- Books, each by an author, in which others have a part. -/
def anthology : Schema := .ofLists [author, book, authorship] []

/-- The books of an author and the one book are kept apart. -/
theorem property_shared_iff_anthology : ∃ r r' s₁ s₂,
    Schema.relation "AUTHOR" "BOOKS" anthology = .ok r s₁ ∧
    Schema.relation "AUTHOR" "BOOK" anthology = .ok r' s₂ ∧
    r.property ≠ r'.property ∧ ¬ r.Homonyms r' := by
  have hfacts : ((anthology.relation? "AUTHOR" "BOOKS").any fun r =>
      (anthology.relation? "AUTHOR" "BOOK").any fun r' =>
        r.target = r'.target ∧ r.isMany = true ∧ r'.isMany = false) = true := by
    decide +kernel
  obtain ⟨r, hsome, hfacts⟩ := (Option.any_eq_true _ _).1 hfacts
  obtain ⟨r', hsome', hfacts⟩ := (Option.any_eq_true _ _).1 hfacts
  obtain ⟨htarget, hmany, hone⟩ := of_decide_eq_true hfacts
  obtain ⟨s₁, h⟩ := relation?_some hsome
  obtain ⟨s₂, h'⟩ := relation?_some hsome'
  obtain ⟨hshared, hapart, -⟩ :=
    property_shared_iff (.ofLists _ _) h h' (by decide +kernel) (by decide +kernel)
  have hproperty := hapart htarget (by rw [hmany, hone]; decide)
  exact ⟨r, r', s₁, s₂, h, h', hproperty, fun hsame => hproperty (hshared.2 hsame)⟩

/-- The books by an author and the books with a part by the author are both called `books`. -/
theorem property_shared : ¬ ∀ (s s₁ s₂ : Schema) (entity name name' : String) (r r' : Relation),
    s.Reachable → s.definitions = .empty → name ≠ name' →
    Schema.relation entity name s = .ok r s₁ → Schema.relation entity name' s = .ok r' s₂ →
    r.property ≠ r'.property := by
  intro h
  have hfacts : ((anthology.relation? "AUTHOR" "BOOKS").any fun r =>
      (anthology.relation? "AUTHOR" "BOOKZ").any fun r' => r.property = r'.property) = true := by
    decide +kernel
  obtain ⟨r, hsome, hfacts⟩ := (Option.any_eq_true _ _).1 hfacts
  obtain ⟨r', hsome', hfacts⟩ := (Option.any_eq_true _ _).1 hfacts
  obtain ⟨s₁, hthere⟩ := relation?_some hsome
  obtain ⟨s₂, hthere'⟩ := relation?_some hsome'
  exact h anthology s₁ s₂ _ _ _ r r' (.ofLists _ _) rfl (by decide) hthere hthere'
    (of_decide_eq_true hfacts)

end Schema

end GraphLoad
