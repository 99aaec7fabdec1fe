/-
Where equality of keys and what they feed to a hash agree. Values that are the same differ in the signs of
the zeros in their documents and in nothing else, while what a value feeds tells it from every other value,
wherever it stands among other words. So both agree on all values without a negative zero in a document, and
keys of such values find one entry of a store exactly when they are the same.
-/
import GraphLoad.Object.Store
import GraphLoad.Proofs.Json.Printing

namespace GraphLoad

/-! ## Zeros without a sign -/

namespace Double

/-- A double with the sign of a zero dropped. -/
def unsigned (d : Double) : Double := if d.isZero then zero else d

/-- Zero with a sign. -/
def isMinusZero (d : Double) : Bool := d.isZero && d.negative

theorem unsigned_eq_self {d : Double} (h : d.isMinusZero = false) : d.unsigned = d := by
  unfold unsigned
  split
  · rename_i hzero
    rcases eq_of_isZero hzero with rfl | rfl
    · rfl
    · exact absurd h (by decide)
  · rfl

theorem isNaN_of_finite {d : Double} (h : d.isFinite = true) : d.isNaN = false := by
  rw [isFinite, bne_iff_ne] at h
  rw [isNaN, beq_eq_false_iff_ne.2 h, Bool.false_and]

theorem numEq_iff {a b : Double} (ha : a.isFinite = true) (hb : b.isFinite = true) :
    a.numEq b = true ↔ a.unsigned = b.unsigned := by
  have hnumber : a.numEq b = true ↔ a = b ∨ a.isZero = true ∧ b.isZero = true := by
    rw [numEq, isNaN_of_finite ha, isNaN_of_finite hb, Bool.not_false, Bool.true_and, Bool.true_and,
      Bool.or_eq_true, Bool.and_eq_true, beq_iff_eq]
    exact or_congr_left ⟨fun h => congrArg mk h, congrArg bits⟩
  have hzero : zero.isZero = true := by decide
  rw [hnumber, unsigned, unsigned]
  constructor
  · rintro (rfl | ⟨hza, hzb⟩)
    · rfl
    · rw [if_pos hza, if_pos hzb]
  · intro h
    split at h <;> split at h <;> rename_i hza hzb
    · exact .inr ⟨hza, hzb⟩
    · exact absurd (h ▸ hzero) hzb
    · exact absurd (h ▸ hzero) hza
    · exact .inl h

end Double

namespace Json

mutual

/-- A document with the signs of its zeros dropped. -/
def unsigned : Json → Json
  | .float d => .float d.unsigned
  | .arr items => .arr (unsignedItems items)
  | .obj members => .obj (unsignedMembers members)
  | j => j

/-- Documents with the signs of their zeros dropped. -/
def unsignedItems : List Json → List Json
  | [] => []
  | item :: rest => unsigned item :: unsignedItems rest

/-- Members with the signs of their zeros dropped. -/
def unsignedMembers : List (String × Json) → List (String × Json)
  | [] => []
  | (key, value) :: rest => (key, unsigned value) :: unsignedMembers rest

end

mutual

theorem unsigned_eq_self : ∀ {j : Json}, j.floatsPass (!·.isMinusZero) = true → j.unsigned = j
  | .null, _ | .bool _, _ | .int _, _ | .str _, _ => by rw [unsigned] <;> rintro _ ⟨⟩
  | .float d, h => by
    simp only [floatsPass, Bool.not_eq_true'] at h
    rw [unsigned, Double.unsigned_eq_self h]
  | .arr items, h => by
    simp only [floatsPass] at h
    rw [unsigned, unsignedItems_eq_self h]
  | .obj members, h => by
    simp only [floatsPass] at h
    rw [unsigned, unsignedMembers_eq_self h]

theorem unsignedItems_eq_self : ∀ {items : List Json}, floatsPassItems (!·.isMinusZero) items = true →
    unsignedItems items = items
  | [], _ => rfl
  | item :: rest, h => by
    rw [floatsPassItems, Bool.and_eq_true] at h
    rw [unsignedItems, unsigned_eq_self h.1, unsignedItems_eq_self h.2]

theorem unsignedMembers_eq_self : ∀ {members : List (String × Json)},
    floatsPassMembers (!·.isMinusZero) members = true → unsignedMembers members = members
  | [], _ => rfl
  | (key, value) :: rest, h => by
    rw [floatsPassMembers, Bool.and_eq_true] at h
    rw [unsignedMembers, unsigned_eq_self h.1, unsignedMembers_eq_self h.2]

end

mutual

/-- Documents are equal up to the signs of their zeros. -/
theorem equal_iff : ∀ {a b : Json}, a.floatsPass (·.isFinite) = true →
    b.floatsPass (·.isFinite) = true → (a.equal b = true ↔ a.unsigned = b.unsigned)
  | .null, b => fun _ _ => by cases b <;> simp [equal, unsigned]
  | .bool p, b => fun _ _ => by cases b <;> simp [equal, unsigned]
  | .int m, b => fun _ _ => by cases b <;> simp [equal, unsigned]
  | .float c, b => fun ha hb => by
    cases b with
    | float d =>
      simp only [floatsPass] at ha hb
      simp only [equal, unsigned, float.injEq]
      exact Double.numEq_iff ha hb
    | _ => simp [equal, unsigned]
  | .str s, b => fun _ _ => by cases b <;> simp [equal, unsigned]
  | .arr as, b => fun ha hb => by
    cases b with
    | arr bs =>
      simp only [floatsPass] at ha hb
      simp only [equal, unsigned, arr.injEq]
      exact equalItems_iff ha hb
    | _ => simp [equal, unsigned]
  | .obj as, b => fun ha hb => by
    cases b with
    | obj bs =>
      simp only [floatsPass] at ha hb
      simp only [equal, unsigned, obj.injEq]
      exact equalMembers_iff ha hb
    | _ => simp [equal, unsigned]

theorem equalItems_iff : ∀ {as bs : List Json}, floatsPassItems (·.isFinite) as = true →
    floatsPassItems (·.isFinite) bs = true →
    (equalItems as bs = true ↔ unsignedItems as = unsignedItems bs)
  | [], bs => fun _ _ => by cases bs <;> simp [equalItems, unsignedItems]
  | a :: as, bs => fun ha hb => by
    cases bs with
    | nil => simp [equalItems, unsignedItems]
    | cons b bs =>
      rw [floatsPassItems, Bool.and_eq_true] at ha hb
      rw [equalItems, Bool.and_eq_true, equal_iff ha.1 hb.1, equalItems_iff ha.2 hb.2, unsignedItems,
        unsignedItems, List.cons.injEq]

theorem equalMembers_iff : ∀ {as bs : List (String × Json)},
    floatsPassMembers (·.isFinite) as = true → floatsPassMembers (·.isFinite) bs = true →
    (equalMembers as bs = true ↔ unsignedMembers as = unsignedMembers bs)
  | [], bs => fun _ _ => by cases bs <;> simp [equalMembers, unsignedMembers]
  | (j, a) :: as, bs => fun ha hb => by
    cases bs with
    | nil => simp [equalMembers, unsignedMembers]
    | cons b bs =>
      obtain ⟨k, b⟩ := b
      rw [floatsPassMembers, Bool.and_eq_true] at ha hb
      rw [equalMembers, Bool.and_eq_true, Bool.and_eq_true, beq_iff_eq, equal_iff ha.1 hb.1,
        equalMembers_iff ha.2 hb.2, unsignedMembers, unsignedMembers, List.cons.injEq, Prod.mk.injEq]

end

end Json

/-! ## Values -/

namespace Value

mutual

/-- Whether memory can hold the value: the floats of its documents are finite, and a list has a length of
64 bits. -/
def holdable : Value → Bool
  | .json j => j.floatsPass (·.isFinite)
  | .list items => decide (items.length < UInt64.size) && holdableAll items
  | _ => true

/-- Whether memory can hold some values. -/
def holdableAll : List Value → Bool
  | [] => true
  | item :: rest => holdable item && holdableAll rest

end

mutual

/-- A value with the signs of the zeros in its documents dropped. -/
def unsigned : Value → Value
  | .json j => .json j.unsigned
  | .list items => .list (unsignedAll items)
  | v => v

/-- Values with the signs of the zeros in their documents dropped. -/
def unsignedAll : List Value → List Value
  | [] => []
  | item :: rest => unsigned item :: unsignedAll rest

end

mutual

theorem unsigned_eq_self : ∀ {v : Value}, v.floatsPass (!·.isMinusZero) = true → v.unsigned = v
  | .null, _ | .bool _, _ | .int _, _ | .float _, _ | .str _, _ => by rw [unsigned] <;> rintro _ ⟨⟩
  | .json j, h => by
    simp only [floatsPass] at h
    rw [unsigned, Json.unsigned_eq_self h]
  | .list items, h => by
    simp only [floatsPass] at h
    rw [unsigned, unsignedAll_eq_self h]

theorem unsignedAll_eq_self : ∀ {vs : List Value}, floatsPassAll (!·.isMinusZero) vs = true →
    unsignedAll vs = vs
  | [], _ => rfl
  | v :: vs, h => by
    rw [floatsPassAll, Bool.and_eq_true] at h
    rw [unsignedAll, unsigned_eq_self h.1, unsignedAll_eq_self h.2]

end

mutual

/-- Values are the same up to the signs of the zeros in their documents. -/
theorem sameAs_iff : ∀ {a b : Value}, a.holdable = true → b.holdable = true →
    (a.sameAs b = true ↔ a.unsigned = b.unsigned)
  | .null, b => fun _ _ => by cases b <;> simp [sameAs, unsigned]
  | .bool p, b => fun _ _ => by cases b <;> simp [sameAs, unsigned]
  | .int m, b => fun _ _ => by cases b <;> simp [sameAs, unsigned]
  | .float c, b => fun _ _ => by
    cases b with
    | float d =>
      cases c; cases d
      simp [sameAs, unsigned]
    | _ => simp [sameAs, unsigned]
  | .str s, b => fun _ _ => by cases b <;> simp [sameAs, unsigned]
  | .json j, b => fun ha hb => by
    cases b with
    | json k =>
      simp only [holdable] at ha hb
      simp only [sameAs, unsigned, json.injEq]
      exact Json.equal_iff ha hb
    | _ => simp [sameAs, unsigned]
  | .list as, b => fun ha hb => by
    cases b with
    | list bs =>
      simp only [holdable, Bool.and_eq_true] at ha hb
      simp only [sameAs, unsigned, list.injEq]
      exact sameAll_iff ha.2 hb.2
    | _ => simp [sameAs, unsigned]

theorem sameAll_iff : ∀ {as bs : List Value}, holdableAll as = true → holdableAll bs = true →
    (sameAll as bs = true ↔ unsignedAll as = unsignedAll bs)
  | [], bs => fun _ _ => by cases bs <;> simp [sameAll, unsignedAll]
  | a :: as, bs => fun ha hb => by
    cases bs with
    | nil => simp [sameAll, unsignedAll]
    | cons b bs =>
      rw [holdableAll, Bool.and_eq_true] at ha hb
      rw [sameAll, Bool.and_eq_true, sameAs_iff ha.1 hb.1, sameAll_iff ha.2 hb.2, unsignedAll, unsignedAll,
        List.cons.injEq]

end

/-! ## What is fed -/

theorem length_eq_of_word {m n : ℕ} (hm : m < UInt64.size) (hn : n < UInt64.size)
    (h : UInt64.ofNat m = UInt64.ofNat n) : m = n := by
  have := congrArg UInt64.toNat h
  rwa [UInt64.toNat_ofNat_of_lt' hm, UInt64.toNat_ofNat_of_lt' hn] at this

mutual

/-- What a value feeds tells it from every other value, whatever is fed after it. -/
theorem eq_of_fed : ∀ {a b : Value} {x y : List HashWord}, a.holdable = true → b.holdable = true →
    a.feed ++ x = b.feed ++ y → a = b ∧ x = y
  | .null, b, x, y => fun _ _ h => by
    cases b with
    | null => exact ⟨rfl, List.append_cancel_left h⟩
    | _ => simp [feed] at h
  | .bool p, b, x, y => fun _ _ h => by
    cases b with
    | bool q =>
      simp only [feed, List.cons_append, List.nil_append, List.cons.injEq, true_and,
        HashWord.byte.injEq] at h
      refine ⟨?_, h.2⟩
      cases p <;> cases q <;> first | rfl | exact absurd h.1 (by decide)
    | _ => simp [feed] at h
  | .int m, b, x, y => fun _ _ h => by
    cases b with
    | int n =>
      simp only [feed, List.cons_append, List.nil_append, List.cons.injEq, true_and,
        HashWord.word.injEq] at h
      exact ⟨congrArg (Value.int ∘ Int64.ofUInt64) h.1, h.2⟩
    | _ => simp [feed] at h
  | .float c, b, x, y => fun _ _ h => by
    cases b with
    | float d =>
      simp only [feed, List.cons_append, List.nil_append, List.cons.injEq, true_and,
        HashWord.word.injEq] at h
      exact ⟨congrArg (Value.float ∘ Double.mk) h.1, h.2⟩
    | _ => simp [feed] at h
  | .str s, b, x, y => fun _ _ h => by
    cases b with
    | str t =>
      simp only [feed, List.cons_append, List.nil_append, List.cons.injEq, true_and,
        HashWord.text.injEq] at h
      exact ⟨congrArg Value.str h.1, h.2⟩
    | _ => simp [feed] at h
  | .json j, b, x, y => fun ha hb h => by
    cases b with
    | json k =>
      simp only [holdable] at ha hb
      simp only [feed, List.cons_append, List.nil_append, List.cons.injEq, true_and,
        HashWord.text.injEq] at h
      exact ⟨congrArg Value.json ((Json.text_inj ha hb).1 h.1), h.2⟩
    | _ => simp [feed] at h
  | .list as, b, x, y => fun ha hb h => by
    cases b with
    | list bs =>
      simp only [holdable, Bool.and_eq_true, decide_eq_true_eq] at ha hb
      simp only [feed, List.cons_append, List.cons.injEq, true_and, HashWord.word.injEq] at h
      obtain ⟨rfl, hrest⟩ := eq_of_fedAll (length_eq_of_word ha.1 hb.1 h.1) ha.2 hb.2 h.2
      exact ⟨rfl, hrest⟩
    | _ => simp [feed] at h

theorem eq_of_fedAll : ∀ {as bs : List Value} {x y : List HashWord}, as.length = bs.length →
    holdableAll as = true → holdableAll bs = true → feedAll as ++ x = feedAll bs ++ y →
    as = bs ∧ x = y
  | [], bs, x, y => fun hlength _ _ h => by
    cases bs with
    | nil => exact ⟨rfl, h⟩
    | cons => cases hlength
  | a :: as, bs, x, y => fun hlength ha hb h => by
    cases bs with
    | nil => cases hlength
    | cons b bs =>
      rw [holdableAll, Bool.and_eq_true] at ha hb
      rw [feedAll, feedAll, List.append_assoc, List.append_assoc] at h
      obtain ⟨rfl, hothers⟩ := eq_of_fed ha.1 hb.1 h
      obtain ⟨rfl, hrest⟩ := eq_of_fedAll (Nat.succ.inj hlength) ha.2 hb.2 hothers
      exact ⟨rfl, hrest⟩

end

/-- What a value feeds tells it from every other value. -/
theorem feed_inj {a b : Value} (ha : a.holdable = true) (hb : b.holdable = true) :
    a.feed = b.feed ↔ a = b := by
  refine ⟨fun h => ?_, congrArg feed⟩
  exact (eq_of_fed (x := []) (y := []) ha hb (by rw [h])).1

/-- No zero in a document of the value has a sign. -/
def Positive (v : Value) : Prop := v.floatsPass (!·.isMinusZero) = true

instance (v : Value) : Decidable v.Positive := inferInstanceAs (Decidable (_ = true))

/-- Away from negative zeros values are the same if they feed alike. -/
theorem sameAs_iff_feed {a b : Value} (ha : a.holdable = true) (hb : b.holdable = true)
    (hpa : a.Positive) (hpb : b.Positive) : a.sameAs b = true ↔ a.feed = b.feed := by
  rw [sameAs_iff ha hb, unsigned_eq_self hpa, unsigned_eq_self hpb, feed_inj ha hb]

/-- The values that memory can hold. -/
abbrev Held : Type := {v : Value // v.holdable = true}

end Value

/-! ## Keys -/

namespace Key

/-- The parts of a key as one value: what holds for lists of values holds for keys. -/
def list (k : Key) : Value := .list k.parts

theorem list_inj {a b : Key} : a.list = b.list ↔ a = b := by
  rw [list, list, Value.list.injEq]
  refine ⟨fun h => ?_, congrArg parts⟩
  cases a
  exact congrArg mk h

theorem sameAs_list (a b : Key) : a.list.sameAs b.list = a.sameAs b := by
  rw [list, list, Value.sameAs, sameAs]

theorem feed_list (k : Key) : k.list.feed = .byte 6 :: k.feed := by
  rw [list, Value.feed, feed]

/-- The keys that memory can hold. -/
abbrev Held : Type := {k : Key // k.list.holdable = true}

/-- Sameness is an equivalence, of values and of keys, and relates the values that differ at most in the
signs of the zeros in their documents; what a value feeds to a hash determines it. So where no such zero is
negative, both agree, and a store finds the same object for keys that are the same. -/
theorem hashing_agrees (v w : Value.Held) (j k : Held) :
    (Equivalence fun a b : Value.Held => a.1.sameAs b.1 = true) ∧
    (Equivalence fun a b : Held => a.1.sameAs b.1 = true) ∧
    (v.1.sameAs w.1 = true ↔ v.1.unsigned = w.1.unsigned) ∧
    (v.1.feed = w.1.feed ↔ v = w) ∧
    (v.1.Positive → w.1.Positive → (v.1.sameAs w.1 = true ↔ v.1.feed = w.1.feed)) ∧
    (j.1.list.Positive → k.1.list.Positive →
      (j.1.sameAs k.1 = true ↔ j.1.feed = k.1.feed) ∧
      (j.1.sameAs k.1 = true → ∀ (s : ObjectStore) (entity : String),
        s.find? entity j.1 = s.find? entity k.1)) := by
  have hvalues : (fun a b : Value.Held => a.1.sameAs b.1 = true) =
      fun a b => a.1.unsigned = b.1.unsigned :=
    funext₂ fun a b => propext (Value.sameAs_iff a.2 b.2)
  have hkeys : (fun a b : Held => a.1.sameAs b.1 = true) =
      fun a b => a.1.list.unsigned = b.1.list.unsigned :=
    funext₂ fun a b => propext (sameAs_list a.1 b.1 ▸ Value.sameAs_iff a.2 b.2)
  refine ⟨?_, ?_, Value.sameAs_iff v.2 w.2, ?_, Value.sameAs_iff_feed v.2 w.2, fun hj hk => ?_⟩
  · rw [hvalues]
    exact eq_equivalence.comap fun a : Value.Held => a.1.unsigned
  · rw [hkeys]
    exact eq_equivalence.comap fun a : Held => a.1.list.unsigned
  · rw [Value.feed_inj v.2 w.2, Subtype.ext_iff]
  · have hfeed : j.1.sameAs k.1 = true ↔ j.1.feed = k.1.feed := by
      rw [← sameAs_list, Value.sameAs_iff_feed j.2 k.2 hj hk, feed_list, feed_list, List.cons.injEq]
      exact and_iff_right rfl
    refine ⟨hfeed, fun hsame s entity => ?_⟩
    have hlist : j.1.list.feed = k.1.list.feed := by rw [feed_list, feed_list, hfeed.1 hsame]
    rw [list_inj.1 ((Value.feed_inj j.2 k.2).1 hlist)]

theorem hashing_agrees_one :
    let whole : Held := ⟨⟨[.json (.int 1), .float ⟨0x8000000000000000⟩]⟩, by decide⟩
    let float : Held :=
      ⟨⟨[.json (.float ⟨0x3FF0000000000000⟩), .float ⟨0x8000000000000000⟩]⟩, by decide⟩
    (whole.1.list.Positive ∧ float.1.list.Positive) ∧ whole.1.sameAs float.1 = false ∧
      whole.1.feed ≠ float.1.feed ∧ float.1.sameAs float.1 = true := by
  intro whole float
  have hwhole : whole.1.list.Positive := by decide
  have hfloat : float.1.list.Positive := by decide
  have hsame : whole.1.sameAs float.1 = false := rfl
  obtain ⟨-, hkeys, -, -, -, hagree⟩ := hashing_agrees ⟨.null, rfl⟩ ⟨.null, rfl⟩ whole float
  refine ⟨⟨hwhole, hfloat⟩, hsame, fun hfeed => ?_, hkeys.refl float⟩
  have htrue := (hagree hwhole hfloat).1.2 hfeed
  rw [hsame] at htrue
  cases htrue

/-- The zeros of documents are equal and feed a hash differently. -/
theorem equal_zeros_feed_apart :
    let plus : Value := .json (.float ⟨0⟩)
    let minus : Value := .json (.float ⟨0x8000000000000000⟩)
    (plus.holdable = true ∧ minus.holdable = true) ∧ plus.sameAs minus = true ∧
      plus.feed ≠ minus.feed := by
  intro plus minus
  refine ⟨⟨by decide, by decide⟩, by decide, fun hfeed => ?_⟩
  have hequal := (Value.feed_inj (by decide) (by decide)).1 hfeed
  exact absurd (Double.mk.inj (Json.float.inj (Value.json.inj hequal))) (by decide)

end Key

end GraphLoad
