/-
Sameness of values and keys: it is symmetric, reflexive on what can stand in a document (no NaN
does), and it only differs from equality through the zeros of documents, which are the same under
either sign but print differently, so that they hash apart.
-/
import GraphLoad.Object.Key

namespace GraphLoad

theorem Double.numEq_comm (a b : Double) : a.numEq b = b.numEq a := by
  unfold Double.numEq
  rw [Bool.and_comm (!a.isNaN), Bool.and_comm a.isZero, Bool.beq_comm]

theorem Double.numEq_refl {d : Double} (h : d.isNaN = false) : d.numEq d = true := by
  simp [Double.numEq, h]

/-! ## Documents -/

namespace Json

mutual

theorem equal_comm : ∀ a b : Json, a.equal b = b.equal a
  | .null, b => by cases b <;> rfl
  | .bool x, b => by
    cases b with
    | bool y => simp only [equal]; exact Bool.beq_comm
    | _ => rfl
  | .int x, b => by
    cases b with
    | int y => simp only [equal]; exact Bool.beq_comm
    | _ => rfl
  | .float x, b => by
    cases b with
    | float y => simp only [equal]; exact Double.numEq_comm x y
    | _ => rfl
  | .str x, b => by
    cases b with
    | str y => simp only [equal]; exact Bool.beq_comm
    | _ => rfl
  | .arr xs, b => by
    cases b with
    | arr ys => simp only [equal]; exact equalItems_comm xs ys
    | _ => rfl
  | .obj xs, b => by
    cases b with
    | obj ys => simp only [equal]; exact equalMembers_comm xs ys
    | _ => rfl

theorem equalItems_comm : ∀ as bs : List Json, equalItems as bs = equalItems bs as
  | [], bs => by cases bs <;> rfl
  | a :: as, bs => by
    cases bs with
    | nil => rfl
    | cons b bs => simp only [equalItems]; rw [equal_comm a b, equalItems_comm as bs]

theorem equalMembers_comm : ∀ as bs : List (String × Json), equalMembers as bs = equalMembers bs as
  | [], bs => by cases bs <;> rfl
  | (j, a) :: as, bs => by
    cases bs with
    | nil => rfl
    | cons b bs =>
      obtain ⟨k, b⟩ := b
      simp only [equalMembers]
      rw [equal_comm a b, equalMembers_comm as bs, Bool.beq_comm]

end

mutual

/-- Whether every float of a document passes a test. -/
def floatsPass (test : Double → Bool) : Json → Bool
  | .float d => test d
  | .arr items => floatsPassItems test items
  | .obj members => floatsPassMembers test members
  | _ => true

/-- Whether every float of some documents passes a test. -/
def floatsPassItems (test : Double → Bool) : List Json → Bool
  | [] => true
  | item :: rest => floatsPass test item && floatsPassItems test rest

/-- Whether every float of some members passes a test. -/
def floatsPassMembers (test : Double → Bool) : List (String × Json) → Bool
  | [] => true
  | (_, value) :: rest => floatsPass test value && floatsPassMembers test rest

end

mutual

theorem equal_refl : ∀ j : Json, j.floatsPass (!·.isNaN) = true → j.equal j = true
  | .null, _ => rfl
  | .bool x, _ => by simp only [equal, beq_self_eq_true]
  | .int x, _ => by simp only [equal, beq_self_eq_true]
  | .float d, h => by
    simp only [floatsPass, Bool.not_eq_true'] at h
    exact Double.numEq_refl h
  | .str x, _ => by simp only [equal, beq_self_eq_true]
  | .arr items, h => by
    simp only [floatsPass] at h
    exact equalItems_refl items h
  | .obj members, h => by
    simp only [floatsPass] at h
    exact equalMembers_refl members h

theorem equalItems_refl : ∀ items : List Json, floatsPassItems (!·.isNaN) items = true →
    equalItems items items = true
  | [], _ => rfl
  | item :: rest, h => by
    simp only [floatsPassItems, Bool.and_eq_true] at h
    simp only [equalItems, Bool.and_eq_true]
    exact ⟨equal_refl item h.1, equalItems_refl rest h.2⟩

theorem equalMembers_refl : ∀ members : List (String × Json),
    floatsPassMembers (!·.isNaN) members = true → equalMembers members members = true
  | [], _ => rfl
  | (key, value) :: rest, h => by
    simp only [floatsPassMembers, Bool.and_eq_true] at h
    simp only [equalMembers, Bool.and_eq_true, beq_self_eq_true, true_and]
    exact ⟨equal_refl value h.1, equalMembers_refl rest h.2⟩

end

/-- Floats that are equal and not zero are one. -/
theorem eq_of_numEq {a b : Double} (h : a.numEq b = true) (ha : a.isZero = false) : a = b := by
  simp only [Double.numEq, ha, Bool.false_and, Bool.or_false, Bool.and_eq_true, beq_iff_eq] at h
  cases a; cases b
  exact congrArg Double.mk h.2

mutual

theorem eq_of_equal : ∀ {a b : Json}, a.equal b = true → a.floatsPass (!·.isZero) = true → a = b
  | .null, b, h, _ => by cases b <;> first | rfl | cases h
  | .bool x, b, h, _ => by
    cases b with
    | bool y => simp only [equal, beq_iff_eq] at h; rw [h]
    | _ => cases h
  | .int x, b, h, _ => by
    cases b with
    | int y => simp only [equal, beq_iff_eq] at h; rw [h]
    | _ => cases h
  | .float x, b, h, hz => by
    cases b with
    | float y =>
      simp only [floatsPass, Bool.not_eq_true'] at hz
      rw [eq_of_numEq h hz]
    | _ => cases h
  | .str x, b, h, _ => by
    cases b with
    | str y => simp only [equal, beq_iff_eq] at h; rw [h]
    | _ => cases h
  | .arr xs, b, h, hz => by
    cases b with
    | arr ys =>
      simp only [equal] at h
      simp only [floatsPass] at hz
      rw [eq_of_equalItems h hz]
    | _ => cases h
  | .obj xs, b, h, hz => by
    cases b with
    | obj ys =>
      simp only [equal] at h
      simp only [floatsPass] at hz
      rw [eq_of_equalMembers h hz]
    | _ => cases h

theorem eq_of_equalItems : ∀ {as bs : List Json}, equalItems as bs = true →
    floatsPassItems (!·.isZero) as = true → as = bs
  | [], bs, h, _ => by cases bs with
    | nil => rfl
    | cons => cases h
  | a :: as, bs, h, hz => by
    cases bs with
    | nil => cases h
    | cons b bs =>
      simp only [equalItems, Bool.and_eq_true] at h
      simp only [floatsPassItems, Bool.and_eq_true] at hz
      rw [eq_of_equal h.1 hz.1, eq_of_equalItems h.2 hz.2]

theorem eq_of_equalMembers : ∀ {as bs : List (String × Json)}, equalMembers as bs = true →
    floatsPassMembers (!·.isZero) as = true → as = bs
  | [], bs, h, _ => by cases bs with
    | nil => rfl
    | cons => cases h
  | (j, a) :: as, bs, h, hz => by
    cases bs with
    | nil => cases h
    | cons b bs =>
      obtain ⟨k, b⟩ := b
      simp only [equalMembers, Bool.and_eq_true, beq_iff_eq] at h
      simp only [floatsPassMembers, Bool.and_eq_true] at hz
      rw [h.1.1, eq_of_equal h.1.2 hz.1, eq_of_equalMembers h.2 hz.2]

end

end Json

/-! ## Values -/

namespace Value

mutual

/-- Whether every float in the documents of a value passes a test. -/
def floatsPass (test : Double → Bool) : Value → Bool
  | .json j => j.floatsPass test
  | .list items => floatsPassAll test items
  | _ => true

/-- Whether every float in the documents of some values passes a test. -/
def floatsPassAll (test : Double → Bool) : List Value → Bool
  | [] => true
  | item :: rest => floatsPass test item && floatsPassAll test rest

end

theorem floatsPassAll_iff {test : Double → Bool} {vs : List Value} :
    floatsPassAll test vs = true ↔ ∀ v ∈ vs, v.floatsPass test = true := by
  induction vs with
  | nil => simp [floatsPassAll]
  | cons v vs ih => simp [floatsPassAll, ih]

/-- What a column can hold: a document writes no NaN. -/
def Regular (v : Value) : Prop := v.floatsPass (!·.isNaN) = true

instance (v : Value) : Decidable v.Regular := inferInstanceAs (Decidable (_ = true))

mutual

theorem sameAs_comm : ∀ a b : Value, a.sameAs b = b.sameAs a
  | .null, b => by cases b <;> rfl
  | .bool x, b => by
    cases b with
    | bool y => simp only [sameAs]; exact Bool.beq_comm
    | _ => rfl
  | .int x, b => by
    cases b with
    | int y => simp only [sameAs]; exact Bool.beq_comm
    | _ => rfl
  | .float x, b => by
    cases b with
    | float y => simp only [sameAs]; exact Bool.beq_comm
    | _ => rfl
  | .str x, b => by
    cases b with
    | str y => simp only [sameAs]; exact Bool.beq_comm
    | _ => rfl
  | .json x, b => by
    cases b with
    | json y => simp only [sameAs]; exact Json.equal_comm x y
    | _ => rfl
  | .list xs, b => by
    cases b with
    | list ys => simp only [sameAs]; exact sameAll_comm xs ys
    | _ => rfl

theorem sameAll_comm : ∀ as bs : List Value, sameAll as bs = sameAll bs as
  | [], bs => by cases bs <;> rfl
  | a :: as, bs => by
    cases bs with
    | nil => rfl
    | cons b bs => simp only [sameAll]; rw [sameAs_comm a b, sameAll_comm as bs]

end

mutual

theorem sameAs_refl : ∀ {v : Value}, v.floatsPass (!·.isNaN) = true → v.sameAs v = true
  | .null, _ => rfl
  | .bool x, _ => by simp only [sameAs, beq_self_eq_true]
  | .int x, _ => by simp only [sameAs, beq_self_eq_true]
  | .float x, _ => by simp only [sameAs, beq_self_eq_true]
  | .str x, _ => by simp only [sameAs, beq_self_eq_true]
  | .json j, h => by
    simp only [floatsPass] at h
    exact j.equal_refl h
  | .list items, h => by
    simp only [floatsPass] at h
    exact sameAll_refl h

theorem sameAll_refl : ∀ {vs : List Value}, floatsPassAll (!·.isNaN) vs = true →
    sameAll vs vs = true
  | [], _ => rfl
  | v :: vs, h => by
    simp only [floatsPassAll, Bool.and_eq_true] at h
    simp only [sameAll, Bool.and_eq_true]
    exact ⟨sameAs_refl h.1, sameAll_refl h.2⟩

end

mutual

theorem eq_of_sameAs : ∀ {a b : Value}, a.sameAs b = true → a.floatsPass (!·.isZero) = true → a = b
  | .null, b, h, _ => by cases b <;> first | rfl | cases h
  | .bool x, b, h, _ => by
    cases b with
    | bool y => simp only [sameAs, beq_iff_eq] at h; rw [h]
    | _ => cases h
  | .int x, b, h, _ => by
    cases b with
    | int y => simp only [sameAs, beq_iff_eq] at h; rw [h]
    | _ => cases h
  | .float x, b, h, _ => by
    cases b with
    | float y =>
      simp only [sameAs, beq_iff_eq] at h
      cases x; cases y
      exact congrArg (Value.float ∘ Double.mk) h
    | _ => cases h
  | .str x, b, h, _ => by
    cases b with
    | str y => simp only [sameAs, beq_iff_eq] at h; rw [h]
    | _ => cases h
  | .json x, b, h, hz => by
    cases b with
    | json y =>
      simp only [sameAs] at h
      simp only [floatsPass] at hz
      rw [Json.eq_of_equal h hz]
    | _ => cases h
  | .list xs, b, h, hz => by
    cases b with
    | list ys =>
      simp only [sameAs] at h
      simp only [floatsPass] at hz
      rw [eq_of_sameAll h hz]
    | _ => cases h

theorem eq_of_sameAll : ∀ {as bs : List Value}, sameAll as bs = true →
    floatsPassAll (!·.isZero) as = true → as = bs
  | [], bs, h, _ => by cases bs with
    | nil => rfl
    | cons => cases h
  | a :: as, bs, h, hz => by
    cases bs with
    | nil => cases h
    | cons b bs =>
      simp only [sameAll, Bool.and_eq_true] at h
      simp only [floatsPassAll, Bool.and_eq_true] at hz
      rw [eq_of_sameAs h.1 hz.1, eq_of_sameAll h.2 hz.2]

end

end Value

/-! ## Keys -/

namespace Key

/-- A key all of whose parts a column can hold. -/
def Regular (k : Key) : Prop := ∀ v ∈ k.parts, v.Regular

/-- A key without a zero in a document. -/
def ZeroFree (k : Key) : Prop := ∀ v ∈ k.parts, v.floatsPass (!·.isZero) = true

theorem meets_iff {a b : Key} : a.meets b = true ↔ a.sameAs b = true ∧ a.feed = b.feed := by
  rw [meets, Bool.and_eq_true, beq_iff_eq]

theorem sameAs_comm (a b : Key) : a.sameAs b = b.sameAs a := Value.sameAll_comm _ _

theorem sameAs_refl {k : Key} (h : k.Regular) : k.sameAs k = true :=
  Value.sameAll_refl (Value.floatsPassAll_iff.2 h)

theorem meets_comm {a b : Key} (h : a.meets b = true) : b.meets a = true := by
  rw [meets_iff] at h ⊢
  exact ⟨by rw [sameAs_comm]; exact h.1, h.2.symm⟩

theorem meets_refl {k : Key} (h : k.Regular) : k.meets k = true :=
  meets_iff.2 ⟨sameAs_refl h, rfl⟩

/-- Away from the zeros of documents, keys that are the same are one and hash alike. -/
theorem eq_of_sameAs {a b : Key} (h : a.sameAs b = true) (hz : a.ZeroFree) : a = b := by
  have hparts := Value.eq_of_sameAll h (Value.floatsPassAll_iff.2 hz)
  cases a; cases b
  exact congrArg Key.mk hparts

end Key

end GraphLoad
