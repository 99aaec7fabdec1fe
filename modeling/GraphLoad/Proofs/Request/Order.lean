/-
Orderings as texts. The text of a term, with any blanks in it and around it, is read as the term, and so is
a list of them with commas in between; what is read are terms by identifiers, one for each piece between the
commas, and their texts are read as the same terms again. A text that is not read is blamed on the first of
its pieces that is none.
-/
import GraphLoad.Proofs.Sql.Spelling
import GraphLoad.Proofs.Steps
import GraphLoad.Proofs.Text.Words

namespace GraphLoad

open Sql

namespace OrderTerm

variable {s : String} {t : OrderTerm} {e : LoadError}

/-! ## Characters of names -/

theorem range_of_isFollower {c : Char} (h : isFollower c = true) : 48 ≤ c.toNat ∧ c.toNat ≤ 122 := by
  change ((decide (c.val ≥ 'A'.val ∧ c.val ≤ 'Z'.val) || (decide (c.val ≥ 'a'.val) &&
    decide (c.val ≤ 'z'.val)) || (decide (c.val ≥ '0'.val) && decide (c.val ≤ '9'.val))) ||
    c == '_') = true at h
  simp only [Bool.or_eq_true, Bool.and_eq_true, decide_eq_true_eq, beq_iff_eq, ge_iff_le,
    UInt32.le_iff_toNat_le] at h
  have hupper : 'A'.val.toNat = 65 := rfl
  have hupper' : 'Z'.val.toNat = 90 := rfl
  have hlower : 'a'.val.toNat = 97 := rfl
  have hlower' : 'z'.val.toNat = 122 := rfl
  have hzero : '0'.val.toNat = 48 := rfl
  have hnine : '9'.val.toNat = 57 := rfl
  have hval : c.val.toNat = c.toNat := rfl
  rcases h with ((h | h) | h) | rfl
  · omega
  · omega
  · omega
  · decide

/-- No blank stands in a name. -/
theorem not_blank {c : Char} (h : isFollower c = true) : Text.isBlank c = false := by
  have hrange := range_of_isFollower h
  simp only [Text.isBlank, Bool.or_eq_false_iff, Bool.and_eq_false_iff, decide_eq_false_iff_not,
    beq_eq_false_iff_ne]
  omega

theorem not_comma {c : Char} (h : isFollower c = true ∨ Text.isBlank c = true) : c ≠ ',' := by
  rintro rfl
  exact absurd h (by decide)

theorem follower_of_identifier (h : isIdentifier s = true) : ∀ c ∈ s.toList, isFollower c = true :=
  List.all_eq_true.1 (all_isFollower h)

theorem toList_ne_nil (h : isIdentifier s = true) : s.toList ≠ [] := by
  intro hnil
  rw [isIdentifier, hnil] at h
  cases h

theorem isIdentifier_keyword (d : Direction) : isIdentifier d.keyword = true := by
  cases d <;> decide

/-! ## One term -/

/-- A text that writes a term: its field and the keyword of its direction, with blanks between them and any
blanks around them. -/
def WrittenAs (t : OrderTerm) (s : String) : Prop :=
  ∃ before between after : List Char,
    s.toList = before ++ t.field.toList ++ between ++ t.direction.keyword.toList ++ after ∧
    (∀ c ∈ before, Text.isBlank c = true) ∧ (∀ c ∈ between, Text.isBlank c = true) ∧
    (∀ c ∈ after, Text.isBlank c = true) ∧ between ≠ []

theorem writtenAs_text (t : OrderTerm) : t.WrittenAs t.text := by
  refine ⟨[], [' '], [], ?_, fun _ h => (List.not_mem_nil h).elim, fun c hc => ?_,
    fun _ h => (List.not_mem_nil h).elim, List.cons_ne_nil _ _⟩
  · simp [text, String.toList_append]
  · rw [List.mem_singleton.1 hc]
    decide

theorem direction?_keyword (d : Direction) : direction? d.keyword = some d := by
  cases d <;> decide +kernel

/-- What writes a term by an identifier is read as the term. -/
theorem parse_of_writtenAs (h : t.WrittenAs s) (hfield : isIdentifier t.field = true) : parse s = .ok t := by
  obtain ⟨before, between, after, hs, hbefore, hbetween, hafter, hne⟩ := h
  have hkeyword := isIdentifier_keyword t.direction
  have hwords : Text.words s = [t.field, t.direction.keyword] :=
    Text.words_two hs hbefore hbetween hafter hne
      (fun c hc => not_blank (follower_of_identifier hfield c hc))
      (fun c hc => not_blank (follower_of_identifier hkeyword c hc))
      (toList_ne_nil hfield) (toList_ne_nil hkeyword)
  simp only [parse, hwords, hfield, direction?_keyword]

/-- A text that writes a term by an identifier has no comma. -/
theorem comma_not_mem (h : t.WrittenAs s) (hfield : isIdentifier t.field = true) : ',' ∉ s.toList := by
  obtain ⟨before, between, after, hs, hbefore, hbetween, hafter, -⟩ := h
  intro hmem
  rw [hs] at hmem
  simp only [List.mem_append] at hmem
  refine not_comma ?_ rfl
  rcases hmem with (((hmem | hmem) | hmem) | hmem) | hmem
  · exact .inr (hbefore _ hmem)
  · exact .inl (follower_of_identifier hfield _ hmem)
  · exact .inr (hbetween _ hmem)
  · exact .inl (follower_of_identifier (isIdentifier_keyword t.direction) _ hmem)
  · exact .inr (hafter _ hmem)

/-- A text is read as a term by an identifier, or is quoted in the error. -/
theorem parse_cases (s : String) :
    (∃ t, parse s = .ok t ∧ isIdentifier t.field = true) ∨ parse s = .error (.invalidOrderBy s) := by
  unfold parse
  split
  · rename_i field _
    cases hfield : isIdentifier field with
    | true => exact .inl ⟨_, rfl, hfield⟩
    | false => exact .inr rfl
  · rename_i field word _
    cases hfield : isIdentifier field with
    | true =>
      cases direction? word with
      | some direction => exact .inl ⟨_, rfl, hfield⟩
      | none => exact .inr rfl
    | false => exact .inr rfl
  · exact .inr rfl

theorem identifier_of_parse (h : parse s = .ok t) : isIdentifier t.field = true := by
  rcases parse_cases s with ⟨u, hu, hfield⟩ | herror
  · rw [h] at hu
    cases hu
    exact hfield
  · rw [h] at herror
    cases herror

theorem error_of_parse (h : parse s = .error e) : e = .invalidOrderBy s := by
  rcases parse_cases s with ⟨u, hu, -⟩ | herror
  · rw [h] at hu
    cases hu
  · rw [h] at herror
    cases herror
    rfl

/-! ## Terms one after the other -/

theorem parseAll_ok {segments : List String} {terms : List OrderTerm} :
    parseAll segments = .ok terms ↔ List.Forall₂ (fun s t => parse s = .ok t) segments terms := by
  induction segments generalizing terms with
  | nil =>
    rw [List.forall₂_nil_left_iff]
    exact ⟨fun h => by cases h; rfl, fun h => by rw [h]; rfl⟩
  | cons s segments ih =>
    rw [List.forall₂_cons_left_iff]
    constructor
    · intro h
      unfold parseAll at h
      cases hs : parse s with
      | error e => rw [hs] at h; cases h
      | ok t =>
        rw [hs] at h
        cases hrest : parseAll segments with
        | error e => rw [hrest] at h; cases h
        | ok others =>
          rw [hrest] at h
          cases h
          exact ⟨t, others, rfl, ih.1 hrest, rfl⟩
    · rintro ⟨t, others, hs, hrest, rfl⟩
      rw [parseAll, hs, ih.2 hrest]
      rfl

/-- The first text that is not read is blamed. -/
theorem parseAll_error {segments : List String} (h : parseAll segments = .error e) :
    ∃ before s after, segments = before ++ s :: after ∧ (∀ r ∈ before, ∃ t, parse r = .ok t) ∧
      parse s = .error e := by
  induction segments with
  | nil => cases h
  | cons s segments ih =>
    unfold parseAll at h
    cases hs : parse s with
    | error e' =>
      rw [hs] at h
      cases h
      exact ⟨[], s, segments, rfl, fun _ hr => (List.not_mem_nil hr).elim, hs⟩
    | ok t =>
      rw [hs] at h
      cases hrest : parseAll segments with
      | ok others => rw [hrest] at h; cases h
      | error e' =>
        rw [hrest] at h
        cases h
        obtain ⟨before, s', after, rfl, hbefore, herror⟩ := ih hrest
        refine ⟨s :: before, s', after, rfl, fun r hr => ?_, herror⟩
        rcases List.mem_cons.1 hr with rfl | hr
        · exact ⟨t, hs⟩
        · exact hbefore r hr

/-- Texts of terms with commas between them are read as the terms. -/
theorem parseList_of_writtenAs {terms : List OrderTerm} {segments : List String} (hne : terms ≠ [])
    (hfields : ∀ t ∈ terms, isIdentifier t.field = true) (h : List.Forall₂ WrittenAs terms segments) :
    parseList (String.intercalate "," segments) = .ok terms := by
  have hnamed := (List.forall₂_and_left terms segments).2 ⟨hfields, h⟩
  have hsegments : segments ≠ [] := by
    rintro rfl
    exact hne (List.forall₂_nil_right_iff.1 h)
  have hcommas : ∀ s ∈ segments, ',' ∉ s.toList := by
    intro s hs
    obtain ⟨t, -, hfield, hwritten⟩ := forall₂_mem_right hnamed s hs
    exact comma_not_mem hwritten hfield
  rw [parseList, show "," = String.singleton ',' from rfl, Text.pieces_intercalate hsegments hcommas,
    parseAll_ok]
  exact (hnamed.imp fun t s ht => parse_of_writtenAs ht.2 ht.1).flip

/-- Orderings are written and read alike. A list of terms by identifiers is read back from its texts, whatever
blanks are added to them; a text that is read gives one term by an identifier for each piece between its
commas, and the texts of these terms are read as them again; and a text that is not read is an error that
quotes the first piece that is no term. -/
theorem parseList_round_trips :
    (∀ (terms : List OrderTerm) (segments : List String), terms ≠ [] →
      (∀ t ∈ terms, isIdentifier t.field = true) → List.Forall₂ WrittenAs terms segments →
      parseList (String.intercalate "," segments) = .ok terms) ∧
    (∀ t : OrderTerm, t.WrittenAs t.text) ∧
    (∀ s, String.intercalate "," (Text.pieces ',' s) = s ∧ ∀ p ∈ Text.pieces ',' s, ',' ∉ p.toList) ∧
    (∀ s terms, parseList s = .ok terms →
      List.Forall₂ (fun p t => parse p = .ok t) (Text.pieces ',' s) terms ∧
      terms.length = s.toList.count ',' + 1 ∧ (∀ t ∈ terms, isIdentifier t.field = true) ∧
      parseList (String.intercalate "," (terms.map text)) = .ok terms) ∧
    ∀ s e, parseList s = .error e → ∃ before p after, Text.pieces ',' s = before ++ p :: after ∧
      (∀ r ∈ before, ∃ t, parse r = .ok t) ∧ (∃ e', parse p = .error e') ∧
      e = .invalidOrderBy p ∧ e.message = "Malformed order-by clause '" ++ p ++ "'" := by
  refine ⟨fun _ _ hne hfields h => parseList_of_writtenAs hne hfields h, writtenAs_text,
    fun s => ⟨Text.intercalate_pieces ',' s, Text.not_mem_pieces⟩, fun s terms h => ?accepted,
    fun s e h => ?rejected⟩
  case accepted =>
    have hread := parseAll_ok.1 h
    have hlength : terms.length = s.toList.count ',' + 1 := by
      rw [← hread.length_eq, Text.length_pieces]
    have hfields : ∀ t ∈ terms, isIdentifier t.field = true := by
      intro t ht
      obtain ⟨p, -, hp⟩ := forall₂_mem_right hread t ht
      exact identifier_of_parse hp
    have hne : terms ≠ [] := by
      rintro rfl
      cases hlength
    have hwritten : List.Forall₂ WrittenAs terms (terms.map text) :=
      List.forall₂_map_right_iff.2 (List.forall₂_same.2 fun t _ => writtenAs_text t)
    exact ⟨hread, hlength, hfields, parseList_of_writtenAs hne hfields hwritten⟩
  case rejected =>
    obtain ⟨before, p, after, hpieces, hbefore, herror⟩ := parseAll_error h
    obtain rfl := error_of_parse herror
    exact ⟨before, p, after, hpieces, hbefore, ⟨_, herror⟩, rfl, rfl⟩

/-- Two terms among blanks of four kinds, a direction in a lower case of which only the whole alphabet has
the upper one, and a comma with nothing behind it. -/
theorem parseList_round_trips_years :
    parseList "\tyear\u00a0 DESC ,_t1 ASC\u3000" = .ok [⟨"year", .descending⟩, ⟨"_t1", .ascending⟩] ∧
    parseList "year a\u017fc,title" = .ok [⟨"year", .ascending⟩, ⟨"title", .ascending⟩] ∧
    parseList "year ASC,title ASC" = .ok [⟨"year", .ascending⟩, ⟨"title", .ascending⟩] ∧
    parseList "year,,1a" = .error (.invalidOrderBy "") ∧
    ∃ before p after, Text.pieces ',' "year,,1a" = before ++ p :: after ∧
      (∀ r ∈ before, ∃ t, parse r = .ok t) ∧ LoadError.invalidOrderBy "" = .invalidOrderBy p := by
  obtain ⟨hwritten, -, -, haccepted, hrejected⟩ := parseList_round_trips
  refine ⟨?_, ?_⟩
  · refine hwritten [⟨"year", .descending⟩, ⟨"_t1", .ascending⟩]
      ["\tyear\u00a0 DESC ", "_t1 ASC\u3000"] (List.cons_ne_nil _ _) (by decide)
      (.cons ?_ (.cons ?_ .nil))
    · exact ⟨['\t'], ['\u00a0', ' '], [' '], rfl, List.all_eq_true.1 (by decide),
        List.all_eq_true.1 (by decide), List.all_eq_true.1 (by decide), List.cons_ne_nil _ _⟩
    · exact ⟨[], [' '], ['\u3000'], rfl, List.all_eq_true.1 (by decide),
        List.all_eq_true.1 (by decide), List.all_eq_true.1 (by decide), List.cons_ne_nil _ _⟩
  · have haccept : parseList "year a\u017fc,title" =
        .ok [⟨"year", .ascending⟩, ⟨"title", .ascending⟩] := by decide +kernel
    have hreject : parseList "year,,1a" = .error (.invalidOrderBy "") := by decide +kernel
    obtain ⟨-, -, -, hagain⟩ := haccepted _ _ haccept
    obtain ⟨before, p, after, hpieces, hbefore, -, hquoted, -⟩ := hrejected _ _ hreject
    exact ⟨haccept, hagain, hreject, before, p, after, hpieces, hbefore, hquoted⟩

end OrderTerm

end GraphLoad
