/-
Documents read as values and written again. The kinds of value are tried in order, and the first that
accepts a document has it. Main statement: every document comes back as it was, unless it is nothing but a
whole number above those of 64 bits with sign. Such a number is taken for a float and written as one, while
inside an array or an object it is kept, with all that is in there, as a part of the document.
-/
import GraphLoad.Proofs.Json.Printing

namespace GraphLoad

namespace Json

mutual

/-- Whether the numbers of a document are such as documents hold: whole numbers of 64 bits, with sign or
without, and finite floats. -/
def representable : Json → Bool
  | .int n => decide (Int64.minValue.toInt ≤ n) && decide (n < UInt64.size)
  | .float d => d.isFinite
  | .arr items => representableItems items
  | .obj members => representableMembers members
  | _ => true

/-- Whether the numbers of some documents are such. -/
def representableItems : List Json → Bool
  | [] => true
  | item :: rest => representable item && representableItems rest

/-- Whether the numbers of some members are such. -/
def representableMembers : List (String × Json) → Bool
  | [] => true
  | (_, value) :: rest => representable value && representableMembers rest

end

mutual

theorem finite_of_representable : ∀ {j : Json}, j.representable = true → j.floatsPass (·.isFinite) = true
  | .null, _ | .bool _, _ | .int _, _ | .str _, _ => by rw [floatsPass] <;> rintro _ ⟨⟩
  | .float d, h => by rwa [representable] at h
  | .arr items, h => by
    rw [representable] at h
    rw [floatsPass]
    exact finite_of_representableItems h
  | .obj members, h => by
    rw [representable] at h
    rw [floatsPass]
    exact finite_of_representableMembers h

theorem finite_of_representableItems : ∀ {items : List Json}, representableItems items = true →
    floatsPassItems (·.isFinite) items = true
  | [], _ => rfl
  | item :: rest, h => by
    rw [representableItems, Bool.and_eq_true] at h
    rw [floatsPassItems, Bool.and_eq_true]
    exact ⟨finite_of_representable h.1, finite_of_representableItems h.2⟩

theorem finite_of_representableMembers : ∀ {members : List (String × Json)},
    representableMembers members = true → floatsPassMembers (·.isFinite) members = true
  | [], _ => rfl
  | (key, value) :: rest, h => by
    rw [representableMembers, Bool.and_eq_true] at h
    rw [floatsPassMembers, Bool.and_eq_true]
    exact ⟨finite_of_representable h.1, finite_of_representableMembers h.2⟩

end

end Json

namespace Value

/-! ## One kind after the other -/

/-- The kinds of value. -/
inductive Kind
  | null
  | bool
  | int
  | float
  | str
  | json
  | list

namespace Kind

/-- The kinds in the order in which they are tried. -/
def order : List Kind := [null, bool, int, float, str, json, list]

/-- The value of a kind that a document is, if the kind accepts the document. A whole number is an integer
if it fits and a float in any case; every document is a document. -/
def read? : Kind → Json → Option Value
  | null, .null => some .null
  | bool, .bool b => some (.bool b)
  | int, .int n => if fitsInt n then some (.int (Int64.ofInt n)) else none
  | float, .int n => some (.float (Double.ofInt n))
  | float, .float d => some (.float d)
  | str, .str s => some (.str s)
  | json, j => some (.json j)
  | list, .arr items => some (.list (items.map ofJson))
  | _, _ => none

end Kind

variable {j : Json}

/-- A document is read as a value of the first kind that accepts it. -/
theorem findSome?_read? (j : Json) : Kind.order.findSome? (·.read? j) = some (ofJson j) := by
  cases j with
  | int n =>
    simp only [Kind.order, List.findSome?, Kind.read?, ofJson]
    cases fitsInt n <;> rfl
  | _ => rfl

/-! ## There and back -/

theorem toJson_int {n : ℤ} (h : fitsInt n = true) : (Value.int (Int64.ofInt n)).toJson = .int n := by
  rw [fitsInt, Bool.and_eq_true, decide_eq_true_eq, decide_eq_true_eq] at h
  rw [toJson, Int64.toInt_ofInt_of_le h.1 (Int.lt_add_one_of_le h.2)]

/-- A value that was read is written with finite floats. -/
theorem finite_toJson (h : j.floatsPass (·.isFinite) = true) :
    (ofJson j).toJson.floatsPass (·.isFinite) = true := by
  have hfloat : ∀ d : Double, (Value.float d).toJson.floatsPass (·.isFinite) = true := by
    intro d
    rw [toJson]
    split
    · rwa [Json.floatsPass]
    · rw [Json.floatsPass] <;> rintro _ ⟨⟩
  cases j with
  | int n =>
    rw [ofJson]
    split
    · rw [toJson, Json.floatsPass] <;> rintro _ ⟨⟩
    · exact hfloat _
  | float d => exact hfloat d
  | arr items => exact h
  | obj members => exact h
  | _ => exact h

/-- A whole number that does not fit is not written as a whole number. -/
theorem toJson_float_ne (d : Double) (n : ℤ) : (Value.float d).toJson ≠ .int n := by
  rw [toJson]
  split <;> rintro ⟨⟩

/-- What is lost on the way there and back: whole numbers that are too large, where they stand alone. -/
theorem toJson_ofJson (h : j.representable = true) :
    (ofJson j).toJson = j ↔ ∀ n, j = .int n → n ≤ Int64.maxValue.toInt := by
  cases j with
  | int n =>
    rw [Json.representable, Bool.and_eq_true, decide_eq_true_eq] at h
    rw [ofJson]
    split
    · rename_i hfits
      rw [toJson_int hfits]
      rw [fitsInt, Bool.and_eq_true, decide_eq_true_eq, decide_eq_true_eq] at hfits
      refine iff_of_true rfl fun m hm => ?_
      cases hm
      exact hfits.2
    · rename_i hlarge
      refine iff_of_false (toJson_float_ne _ n) fun hsmall => hlarge ?_
      rw [fitsInt, Bool.and_eq_true, decide_eq_true_eq, decide_eq_true_eq]
      exact ⟨h.1, hsmall n rfl⟩
  | float d =>
    rw [Json.representable] at h
    refine iff_of_true ?_ (by rintro n ⟨⟩)
    rw [ofJson, toJson, if_pos h]
  | _ => exact iff_of_true rfl (by rintro n ⟨⟩)

/-- A document is read as a value of the first kind, in the order of the kinds, that accepts it. Written again
it is the document it was, to the letter, unless it is nothing but a whole number above those of 64 bits with
sign. -/
theorem json_survives (h : j.representable = true) :
    Kind.order.findSome? (·.read? j) = some (ofJson j) ∧
      ((ofJson j).toJson = j ↔ ∀ n, j = .int n → n ≤ Int64.maxValue.toInt) ∧
      ((ofJson j).toJson.text = j.text ↔ ∀ n, j = .int n → n ≤ Int64.maxValue.toInt) := by
  have hfinite := Json.finite_of_representable h
  refine ⟨findSome?_read? j, toJson_ofJson h, ?_⟩
  rw [Json.text_inj (finite_toJson hfinite) hfinite]
  exact toJson_ofJson h

/-- The least and the greatest whole numbers of 64 bits, inside an object. -/
def extremes : Json :=
  .obj [("counts", .arr [.int (-9223372036854775808), .int 18446744073709551615]), ("note", .null)]

theorem json_survives_extremes : extremes.representable = true ∧
    (ofJson extremes).toJson = extremes ∧ (ofJson extremes).toJson.text = extremes.text := by
  have hrepresentable : extremes.representable = true := by decide
  obtain ⟨-, hdocument, htext⟩ := json_survives hrepresentable
  have hinside : ∀ n, extremes = .int n → n ≤ Int64.maxValue.toInt := fun n hn => nomatch hn
  exact ⟨hrepresentable, hdocument.2 hinside, htext.2 hinside⟩

/-- The first whole number that needs all 64 bits is taken for a float where it stands alone. -/
theorem large_number_floats : ¬ ∀ j : Json, j.representable = true →
    j.floatsPass (fun _ => false) = true → (ofJson j).toJson = j := by
  intro h
  exact toJson_float_ne (Double.ofInt 9223372036854775808) 9223372036854775808
    (h (.int 9223372036854775808) (by decide) (by decide))

end Value

end GraphLoad
