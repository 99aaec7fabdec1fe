/-
What a key feeds to a hash. Values that are the same differ at most in the signs of the zeros in their
documents, and a zero is printed with its sign; so what two such values feed tells them apart, wherever
it stands among other words, and keys that find each other in a table of hashes are one key.
-/
import GraphLoad.Proofs.Number.Interval
import GraphLoad.Proofs.Object.Sameness

namespace GraphLoad

namespace Json

/-! ## Zeros -/

/-- A zero is printed with its sign. -/
theorem eq_of_floatText {a b : Double} {x y : List Char} (h : a.numEq b = true)
    (htext : (floatText a).toList ++ x = (floatText b).toList ++ y) : a = b ∧ x = y := by
  suffices hab : a = b by
    rw [hab] at htext
    exact ⟨hab, List.append_cancel_left htext⟩
  cases hzero : a.isZero with
  | false => exact eq_of_numEq h hzero
  | true =>
    have hplus : floatText ⟨0⟩ = "0.0" := by decide +kernel
    have hminus : floatText ⟨0x8000000000000000⟩ = "-0.0" := by decide +kernel
    have hb : b.bits = a.bits ∨ b.isZero = true := by
      unfold Double.numEq at h
      rw [Bool.and_eq_true, Bool.or_eq_true, beq_iff_eq, Bool.and_eq_true] at h
      exact h.2.imp Eq.symm fun hzeros => (Bool.and_eq_true _ _ ▸ hzeros).2
    rcases hb with hb | hb
    · exact congrArg Double.mk hb.symm
    · rcases Double.eq_of_isZero hzero with rfl | rfl <;> rcases Double.eq_of_isZero hb with rfl | rfl
      · rfl
      · rw [hplus, hminus] at htext
        exact absurd (List.cons.inj htext).1 (by decide)
      · rw [hplus, hminus] at htext
        exact absurd (List.cons.inj htext).1 (by decide)
      · rfl

/-! ## Documents -/

/-- The first of texts that are separated by commas, and each other with the comma before it. -/
theorem toList_intercalate_cons (ts : List String) (t : String) :
    (String.intercalate "," (t :: ts)).toList = t.toList ++ ts.flatMap fun t => ',' :: t.toList := by
  induction ts generalizing t with
  | nil => rw [String.intercalate_singleton, List.flatMap_nil, List.append_nil]
  | cons u ts ih =>
    rw [String.intercalate_cons_cons, String.toList_append, String.toList_append, List.append_assoc,
      List.flatMap_cons, ih u]
    rfl

/-- Texts that are separated by commas, each with the comma before it. -/
theorem commas {ts us : List String} {x y : List Char} (hlength : ts.length = us.length)
    (h : (String.intercalate "," ts).toList ++ x = (String.intercalate "," us).toList ++ y) :
    (ts.flatMap fun t => ',' :: t.toList) ++ x = (us.flatMap fun t => ',' :: t.toList) ++ y := by
  match ts, us, hlength with
  | [], [], _ => exact h
  | t :: ts, u :: us, _ =>
    rw [toList_intercalate_cons, toList_intercalate_cons] at h
    exact congrArg (',' :: ·) h

theorem length_texts_of_equalItems : ∀ {as bs : List Json}, equalItems as bs = true →
    (itemTexts as).length = (itemTexts bs).length
  | [], [], _ => rfl
  | a :: as, b :: bs, h => by
    rw [equalItems, Bool.and_eq_true] at h
    simp only [itemTexts, List.length_cons, length_texts_of_equalItems h.2]

theorem length_texts_of_equalMembers : ∀ {as bs : List (String × Json)}, equalMembers as bs = true →
    (memberTexts as).length = (memberTexts bs).length
  | [], [], _ => rfl
  | (j, a) :: as, (k, b) :: bs, h => by
    rw [equalMembers, Bool.and_eq_true] at h
    simp only [memberTexts, List.length_cons, length_texts_of_equalMembers h.2]

mutual

/-- Equal documents that are printed alike are one, and what comes after them is printed alike. -/
theorem eq_of_text : ∀ {a b : Json} {x y : List Char}, a.equal b = true →
    a.text.toList ++ x = b.text.toList ++ y → a = b ∧ x = y
  | .null, b, x, y => fun h htext => by
    cases b with
    | null => exact ⟨rfl, List.append_cancel_left htext⟩
    | _ => cases h
  | .bool p, b, x, y => fun h htext => by
    cases b with
    | bool q =>
      simp only [equal, beq_iff_eq] at h
      subst h
      exact ⟨rfl, List.append_cancel_left htext⟩
    | _ => cases h
  | .int m, b, x, y => fun h htext => by
    cases b with
    | int n =>
      simp only [equal, beq_iff_eq] at h
      subst h
      exact ⟨rfl, List.append_cancel_left htext⟩
    | _ => cases h
  | .float c, b, x, y => fun h htext => by
    cases b with
    | float d =>
      obtain ⟨rfl, hrest⟩ := eq_of_floatText h htext
      exact ⟨rfl, hrest⟩
    | _ => cases h
  | .str s, b, x, y => fun h htext => by
    cases b with
    | str s' =>
      simp only [equal, beq_iff_eq] at h
      subst h
      exact ⟨rfl, List.append_cancel_left htext⟩
    | _ => cases h
  | .arr as, b, x, y => fun h htext => by
    cases b with
    | arr bs =>
      simp only [equal] at h
      simp only [text, String.toList_append, List.append_assoc] at htext
      have hitems := commas (length_texts_of_equalItems h) (List.append_cancel_left htext)
      obtain ⟨rfl, hrest⟩ := eq_of_itemTexts h hitems
      exact ⟨rfl, List.append_cancel_left hrest⟩
    | _ => cases h
  | .obj as, b, x, y => fun h htext => by
    cases b with
    | obj bs =>
      simp only [equal] at h
      simp only [text, String.toList_append, List.append_assoc] at htext
      have hmembers := commas (length_texts_of_equalMembers h) (List.append_cancel_left htext)
      obtain ⟨rfl, hrest⟩ := eq_of_memberTexts h hmembers
      exact ⟨rfl, List.append_cancel_left hrest⟩
    | _ => cases h

theorem eq_of_itemTexts : ∀ {as bs : List Json} {x y : List Char}, equalItems as bs = true →
    ((itemTexts as).flatMap fun t => ',' :: t.toList) ++ x =
      ((itemTexts bs).flatMap fun t => ',' :: t.toList) ++ y → as = bs ∧ x = y
  | [], bs, x, y => fun h htext => by
    cases bs with
    | nil =>
      simp only [itemTexts] at htext
      exact ⟨rfl, List.append_cancel_left htext⟩
    | cons => cases h
  | a :: as, bs, x, y => fun h htext => by
    cases bs with
    | nil => cases h
    | cons b bs =>
      rw [equalItems, Bool.and_eq_true] at h
      simp only [itemTexts, List.flatMap_cons, List.cons_append, List.append_assoc, List.cons.injEq,
        true_and] at htext
      obtain ⟨rfl, hothers⟩ := eq_of_text h.1 htext
      obtain ⟨rfl, hrest⟩ := eq_of_itemTexts h.2 hothers
      exact ⟨rfl, hrest⟩

theorem eq_of_memberTexts : ∀ {as bs : List (String × Json)} {x y : List Char},
    equalMembers as bs = true → ((memberTexts as).flatMap fun t => ',' :: t.toList) ++ x =
      ((memberTexts bs).flatMap fun t => ',' :: t.toList) ++ y → as = bs ∧ x = y
  | [], bs, x, y => fun h htext => by
    cases bs with
    | nil =>
      simp only [memberTexts] at htext
      exact ⟨rfl, List.append_cancel_left htext⟩
    | cons => cases h
  | (j, a) :: as, bs, x, y => fun h htext => by
    cases bs with
    | nil => cases h
    | cons b bs =>
      obtain ⟨k, b⟩ := b
      rw [equalMembers, Bool.and_eq_true, Bool.and_eq_true, beq_iff_eq] at h
      obtain ⟨⟨rfl, hab⟩, hmembers⟩ := h
      simp only [memberTexts, List.flatMap_cons, List.cons_append, List.append_assoc,
        String.toList_append, List.cons.injEq, true_and] at htext
      have hvalue := List.append_cancel_left (List.append_cancel_left htext)
      obtain ⟨rfl, hothers⟩ := eq_of_text hab hvalue
      obtain ⟨rfl, hrest⟩ := eq_of_memberTexts hmembers hothers
      exact ⟨rfl, hrest⟩

end

end Json

/-! ## Values -/

namespace Value

mutual

/-- Values that are the same and feed alike are one, and what is fed after them is alike. -/
theorem eq_of_feed : ∀ {a b : Value} {x y : List HashWord}, a.sameAs b = true →
    a.feed ++ x = b.feed ++ y → a = b ∧ x = y
  | .null, b, x, y, h, hfeed => by
    cases b with
    | null => exact ⟨rfl, List.append_cancel_left hfeed⟩
    | _ => cases h
  | .bool p, b, x, y, h, hfeed => by
    cases b with
    | bool q =>
      simp only [sameAs, beq_iff_eq] at h
      subst h
      exact ⟨rfl, List.append_cancel_left hfeed⟩
    | _ => cases h
  | .int m, b, x, y, h, hfeed => by
    cases b with
    | int n =>
      simp only [sameAs, beq_iff_eq] at h
      subst h
      exact ⟨rfl, List.append_cancel_left hfeed⟩
    | _ => cases h
  | .float c, b, x, y, h, hfeed => by
    cases b with
    | float d =>
      simp only [sameAs, beq_iff_eq] at h
      obtain rfl : c = d := congrArg Double.mk h
      exact ⟨rfl, List.append_cancel_left hfeed⟩
    | _ => cases h
  | .str s, b, x, y, h, hfeed => by
    cases b with
    | str s' =>
      simp only [sameAs, beq_iff_eq] at h
      subst h
      exact ⟨rfl, List.append_cancel_left hfeed⟩
    | _ => cases h
  | .json j, b, x, y, h, hfeed => by
    cases b with
    | json k =>
      simp only [feed, List.cons_append, List.nil_append, List.cons.injEq, true_and,
        HashWord.text.injEq] at hfeed
      obtain ⟨rfl, -⟩ := Json.eq_of_text (x := []) (y := []) h (by rw [hfeed.1])
      exact ⟨rfl, hfeed.2⟩
    | _ => cases h
  | .list as, b, x, y, h, hfeed => by
    cases b with
    | list bs =>
      simp only [feed, List.cons_append, List.cons.injEq, true_and] at hfeed
      obtain ⟨rfl, hrest⟩ := eq_of_feedAll h hfeed.2
      exact ⟨rfl, hrest⟩
    | _ => cases h

theorem eq_of_feedAll : ∀ {as bs : List Value} {x y : List HashWord}, sameAll as bs = true →
    feedAll as ++ x = feedAll bs ++ y → as = bs ∧ x = y
  | [], bs, x, y, h, hfeed => by
    cases bs with
    | nil => exact ⟨rfl, hfeed⟩
    | cons => cases h
  | a :: as, bs, x, y, h, hfeed => by
    cases bs with
    | nil => cases h
    | cons b bs =>
      rw [sameAll, Bool.and_eq_true] at h
      rw [feedAll, feedAll, List.append_assoc, List.append_assoc] at hfeed
      obtain ⟨rfl, hothers⟩ := eq_of_feed h.1 hfeed
      obtain ⟨rfl, hrest⟩ := eq_of_feedAll h.2 hothers
      exact ⟨rfl, hrest⟩

end

end Value

/-- Keys that find each other in a table of hashes are one key. -/
theorem Key.eq_of_meets {a b : Key} (h : a.meets b = true) : a = b := by
  obtain ⟨hsame, hfeed⟩ := Key.meets_iff.1 h
  have hparts := (List.cons.inj hfeed).2
  obtain ⟨heq, -⟩ := Value.eq_of_feedAll (x := []) (y := []) hsame (by rw [hparts])
  rw [Key.mk.injEq]
  exact heq

end GraphLoad
