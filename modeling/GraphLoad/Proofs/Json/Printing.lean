/-
Documents are told apart by their texts, also where a text goes on behind the document: the reader of tokens
finds the kind of the document, its number or its string again, and the items of an array or the members of
an object are told apart one after the other.
-/
import GraphLoad.Json.Printer
import GraphLoad.Proofs.Json.Numeral
import GraphLoad.Proofs.Object.Hashing

namespace GraphLoad.Json

open Token

variable {x y : List Char}

/-! ## Numbers -/

/-- A numeral with its sign. -/
def signed (negative : Bool) (s : Spelling) : List Char := if negative then '-' :: s.chars else s.chars

theorem next?_signed {s : Spelling} (hs : s.Proper) (hx : Follows x) (negative : Bool) :
    next? (signed negative s ++ x) = some (.number (s.numeral negative), x) := by
  cases negative with
  | true =>
    show (numeral? true (s.chars ++ x)).map _ = _
    rw [numeral?_chars hs hx]
    rfl
  | false =>
    show next? (s.chars ++ x) = _
    obtain ⟨c, cs, hcs⟩ := List.exists_cons_of_ne_nil hs.whole.1
    have hdigit := hs.whole.2 c (hcs ▸ List.mem_cons_self ..)
    have hnumeral := numeral?_chars hs hx false
    rw [Spelling.chars, hcs, List.cons_append, List.cons_append] at hnumeral ⊢
    -- no other token starts with a digit
    unfold next?
    split
    case h_12 => rw [hnumeral]; rfl
    all_goals
      rename_i h
      obtain ⟨rfl, -⟩ := List.cons.inj h
      exact absurd hdigit (by decide)

/-! ## Strings -/

/-- How a character of a printed string is read: control characters without a letter of their own are
printed by their codes. -/
def pieceOf (c : Char) : Piece :=
  if c = '\n' ∨ c = '\r' ∨ c = '\t' ∨ c.toNat = 8 ∨ c.toNat = 12 ∨ 32 ≤ c.toNat then .char c
  else .code c.toNat

theorem pieceOf_inj {c d : Char} (h : pieceOf c = pieceOf d) : c = d := by
  unfold pieceOf at h
  split at h <;> split at h
  · exact Piece.char.inj h
  · cases h
  · cases h
  · exact Char.toNat_inj.1 (Piece.code.inj h)

theorem string?_plain {c : Char} {cs : List Char} (hquote : c ≠ '\x22') (hslash : c ≠ '\\')
    (hcontrol : ¬c.toNat < 32) :
    string? (c :: cs) = (string? cs).map fun p => (.char c :: p.1, p.2) := by
  rw [string?]
  · rw [if_neg hquote, if_neg (not_or.2 ⟨hcontrol, hslash⟩)]
    cases string? cs <;> rfl
  · rintro a b c d cs heq -
    exact hslash heq
  · rintro d cs heq -
    exact hslash heq

theorem string?_letter {c d : Char} {cs : List Char} (h : escaped? c = some d) :
    string? ('\\' :: c :: cs) = (string? cs).map fun p => (.char d :: p.1, p.2) := by
  rw [string?]
  · rw [h]
    cases string? cs <;> rfl
  · rintro a b e f cs rfl -
    cases h

theorem string?_code {n : ℕ} {cs : List Char} (h : n < 32) :
    string? (codeEscape n ++ cs) = (string? cs).map fun p => (.code n :: p.1, p.2) := by
  have hcodes : ∀ n < 32, Text.ofHexDigits? (Text.hexDigits n 4) = some n := by decide +kernel
  have hcode := hcodes n h
  simp only [Text.hexDigits] at hcode
  simp only [codeEscape, Text.hexDigits, List.cons_append, List.nil_append]
  rw [string?, code?, hcode]
  cases string? cs <;> rfl

/-- A character of a string is read as it is printed. -/
theorem string?_escapeChar (c : Char) (cs : List Char) :
    string? (escapeChar c ++ cs) = (string? cs).map fun p => (pieceOf c :: p.1, p.2) := by
  have hletter : ∀ {d e : Char}, escaped? d = some e → pieceOf e = .char e →
      string? ('\\' :: d :: cs) = (string? cs).map fun p => (pieceOf e :: p.1, p.2) := by
    intro d e h he
    rw [he]
    exact string?_letter h
  unfold escapeChar
  -- the characters with a letter of their own, then the two of them that are known by their codes
  iterate 5
    split
    · subst c
      exact hletter rfl (if_pos (by decide))
  split
  · rename_i h
    obtain rfl : c = Char.ofNat 8 := Char.toNat_inj.1 h
    exact hletter rfl (if_pos (by decide))
  split
  · rename_i h
    obtain rfl : c = Char.ofNat 12 := Char.toNat_inj.1 h
    exact hletter rfl (if_pos (by decide))
  split
  · rename_i hquote hslash hn hr ht hb hf hcontrol
    rw [string?_code hcontrol, pieceOf, if_neg]
    simp only [hn, hr, ht, hb, hf, false_or]
    omega
  · rename_i hquote hslash hn hr ht hb hf hcontrol
    rw [List.singleton_append, string?_plain hquote hslash hcontrol, pieceOf, if_pos]
    simp only [hn, hr, ht, hb, hf, false_or]
    omega

/-- A string is read as it is printed. -/
theorem string?_flatMap (cs x : List Char) :
    string? (cs.flatMap escapeChar ++ '\x22' :: x) = some (cs.map pieceOf, x) := by
  induction cs with
  | nil =>
    rw [List.flatMap_nil, List.nil_append, string?, if_pos rfl, List.map_nil]
    · rintro a b c d cs ⟨⟩
    · rintro d cs ⟨⟩
  | cons c cs ih =>
    rw [List.flatMap_cons, List.append_assoc, string?_escapeChar, ih]
    rfl

theorem next?_quote (s : String) (x : List Char) :
    next? ((quote s).toList ++ x) = some (.string (s.toList.map pieceOf), x) := by
  rw [quote, String.toList_ofList, List.append_assoc, List.cons_append]
  show (string? (s.toList.flatMap escapeChar ++ '\x22' :: x)).map _ = _
  rw [string?_flatMap]
  rfl

theorem eq_of_pieces {s t : String} (h : s.toList.map pieceOf = t.toList.map pieceOf) : s = t :=
  String.toList_inj.1 (List.map_injective_iff.2 (fun _ _ => pieceOf_inj) h)

/-! ## Tokens of numbers -/

/-- The digits of a whole number. -/
def wholeSpelling (n : ℤ) : Spelling := ⟨Nat.toDigits 10 n.natAbs, none, none⟩

theorem toList_toString (n : ℤ) : (toString n).toList = signed (decide (n < 0)) (wholeSpelling n) := by
  have hchars : (wholeSpelling n).chars = Nat.toDigits 10 n.natAbs := List.append_nil _
  rw [Int.toString_eq_repr, Int.repr_eq_if, signed, hchars]
  by_cases hn : 0 ≤ n
  · rw [if_pos hn, decide_eq_false (not_lt.2 hn), Nat.toList_repr, show n.toNat = n.natAbs by omega]
    rfl
  · rw [if_neg hn, decide_eq_true (not_le.1 hn), String.toList_append, Nat.toList_repr,
      show (-n).toNat = n.natAbs by omega]
    rfl

theorem proper_wholeSpelling (n : ℤ) : (wholeSpelling n).Proper := by
  refine ⟨Decimal.run_toDigits _, fun hlead => ?_, by rintro _ ⟨⟩, by rintro _ ⟨⟩⟩
  by_cases hn : n.natAbs = 0
  · rw [wholeSpelling, hn]
    rfl
  · exact absurd hlead (head?_toDigits_ne hn)

theorem eq_of_wholeSpelling {m n : ℤ}
    (h : (wholeSpelling m).numeral (decide (m < 0)) = (wholeSpelling n).numeral (decide (n < 0))) :
    m = n := by
  have hsign : decide (m < 0) = decide (n < 0) := congrArg Numeral.negative h
  have hdigits := congrArg (Numeral.number ∘ Numeral.whole) h
  simp only [Function.comp, Spelling.numeral, wholeSpelling, Numeral.number_digits,
    Nat.ofDigitChars_ten_toDigits] at hdigits
  rw [decide_eq_decide] at hsign
  omega

theorem toList_floatText {d : Double} (h : d.isFinite = true) :
    (floatText d).toList = signed d.negative (Decimal.shortest .even d).spelling := by
  rw [floatText, if_pos h, Double.scientific, String.toList_append, Decimal.toList_scientific, Double.sign,
    signed]
  split <;> rfl

theorem proper_shortest (d : Double) : (Decimal.shortest .even d).spelling.Proper := by
  refine Decimal.proper_spelling fun hdigits => ?_
  cases hzero : d.isZero with
  | true =>
    rw [Decimal.shortest, if_pos hzero]
  | false =>
    have hpos := Decimal.value_shortest_pos .even hzero
    rw [Decimal.value, hdigits, Nat.cast_zero, zero_mul] at hpos
    exact absurd hpos (lt_irrefl 0)

theorem eq_of_shortest {a b : Double} (h : (Decimal.shortest .even a).spelling.numeral a.negative =
    (Decimal.shortest .even b).spelling.numeral b.negative) : a = b := by
  have hvalue := congrArg Numeral.value h
  rw [Decimal.value_spelling, Decimal.value_spelling] at hvalue
  exact Double.eq_of_place (congrArg Numeral.negative h) (Decimal.place_eq_of_shortest hvalue)

/-- No numeral of a float is that of a whole number. -/
theorem shortest_ne_whole (d : Double) (n : ℤ) :
    (Decimal.shortest .even d).spelling.numeral d.negative ≠
      (wholeSpelling n).numeral (decide (n < 0)) := by
  intro h
  have hfraction := congrArg (Option.isSome ∘ Numeral.fraction) h
  have hexponent := congrArg (Option.isSome ∘ Numeral.exponent) h
  simp only [Function.comp, Spelling.numeral, wholeSpelling, Option.isSome_map, Option.map_none,
    Option.isSome_none] at hfraction hexponent
  rcases Decimal.some_of_spelling (Decimal.shortest .even d) with hsome | hsome
  · rw [hfraction] at hsome
    cases hsome
  · rw [hexponent] at hsome
    cases hsome

/-! ## Documents -/

/-- The token a printed document starts with. -/
def token : Json → Token
  | .null => .null
  | .bool b => .bool b
  | .int n => .number ((wholeSpelling n).numeral (decide (n < 0)))
  | .float d => .number ((Decimal.shortest .even d).spelling.numeral d.negative)
  | .str s => .string (s.toList.map pieceOf)
  | .arr _ => .openArray
  | .obj _ => .openObject

/-- What stands behind that token. -/
def behind (x : List Char) : Json → List Char
  | .arr items => (String.intercalate "," (itemTexts items)).toList ++ ']' :: x
  | .obj members => (String.intercalate "," (memberTexts members)).toList ++ '\x7d' :: x
  | _ => x

theorem next?_text {j : Json} (hj : j.floatsPass (·.isFinite) = true) (hx : Follows x) :
    next? (j.text.toList ++ x) = some (j.token, j.behind x) := by
  cases j with
  | null => rfl
  | bool b => cases b <;> rfl
  | int n =>
    rw [text, toList_toString]
    exact next?_signed (proper_wholeSpelling n) hx _
  | float d =>
    rw [text, toList_floatText (by simpa only [floatsPass] using hj)]
    exact next?_signed (proper_shortest d) hx _
  | str s => exact next?_quote s x
  | arr items =>
    rw [text, String.toList_append, String.toList_append, List.append_assoc, List.append_assoc]
    rfl
  | obj members =>
    rw [text, String.toList_append, String.toList_append, List.append_assoc, List.append_assoc]
    rfl

/-- Printed documents begin alike if they start with one token and go on alike. -/
theorem token_eq {a b : Json} (ha : a.floatsPass (·.isFinite) = true)
    (hb : b.floatsPass (·.isFinite) = true) (hx : Follows x) (hy : Follows y)
    (h : a.text.toList ++ x = b.text.toList ++ y) : a.token = b.token ∧ a.behind x = b.behind y := by
  have hnext := congrArg next? h
  rw [next?_text ha hx, next?_text hb hy] at hnext
  exact Prod.mk.inj (Option.some.inj hnext)

/-! ## Lists of documents -/

/-- The texts of a list, each behind a comma. -/
def behindCommas (ts : List String) : List Char := ts.flatMap fun t => ',' :: t.toList

theorem behindCommas_cons (t : String) (ts : List String) (x : List Char) :
    behindCommas (t :: ts) ++ x = ',' :: (t.toList ++ (behindCommas ts ++ x)) := by
  rw [behindCommas, List.flatMap_cons, List.cons_append, List.cons_append, List.append_assoc]
  rfl

theorem follows_behindCommas (ts : List String) {c : Char} (hc : c = ']' ∨ c = '\x7d') (x : List Char) :
    Follows (behindCommas ts ++ c :: x) := by
  cases ts with
  | nil =>
    rintro _ ⟨⟩
    exact .inr hc
  | cons t ts =>
    rintro _ ⟨⟩
    exact .inl rfl

/-- A list is closed where no text can start. -/
theorem commas_of_closed {ts us : List String} {c : Char}
    (hts : ∀ t ∈ ts, ∃ d ds, t.toList = d :: ds ∧ d ≠ c)
    (hus : ∀ u ∈ us, ∃ d ds, u.toList = d :: ds ∧ d ≠ c)
    (h : (String.intercalate "," ts).toList ++ c :: x = (String.intercalate "," us).toList ++ c :: y) :
    behindCommas ts ++ c :: x = behindCommas us ++ c :: y := by
  match ts, us with
  | [], [] => exact h
  | [], u :: us =>
    obtain ⟨d, ds, hu, hne⟩ := hus u (List.mem_cons_self ..)
    rw [toList_intercalate_cons, hu] at h
    exact absurd (List.cons.inj h).1.symm hne
  | t :: ts, [] =>
    obtain ⟨d, ds, ht, hne⟩ := hts t (List.mem_cons_self ..)
    rw [toList_intercalate_cons, ht] at h
    exact absurd (List.cons.inj h).1 hne
  | t :: ts, u :: us =>
    rw [toList_intercalate_cons, toList_intercalate_cons] at h
    exact congrArg (',' :: ·) h

/-- No document starts with a closing bracket. -/
theorem head_itemTexts {items : List Json} (h : floatsPassItems (·.isFinite) items = true) :
    ∀ t ∈ itemTexts items, ∃ d ds, t.toList = d :: ds ∧ d ≠ ']' := by
  induction items with
  | nil => rintro t ⟨⟩
  | cons j items ih =>
    rw [floatsPassItems, Bool.and_eq_true] at h
    rintro t ht
    rcases List.mem_cons.1 ht with rfl | ht
    · have hnext := next?_text h.1 (x := []) (by rintro _ ⟨⟩)
      rw [List.append_nil] at hnext
      cases htext : j.text.toList with
      | nil =>
        rw [htext] at hnext
        cases hnext
      | cons d ds =>
        refine ⟨d, ds, rfl, ?_⟩
        rintro rfl
        rw [htext] at hnext
        cases j <;> cases hnext
    · exact ih h.2 t ht

theorem head_memberTexts (members : List (String × Json)) :
    ∀ t ∈ memberTexts members, ∃ d ds, t.toList = d :: ds ∧ d ≠ '\x7d' := by
  induction members with
  | nil => rintro t ⟨⟩
  | cons m members ih =>
    rintro t ht
    rcases List.mem_cons.1 ht with rfl | ht
    · obtain ⟨ds, hds⟩ : ∃ ds, (quote m.1 ++ ":" ++ m.2.text).toList = '\x22' :: ds := by
        rw [String.toList_append, String.toList_append, quote, String.toList_ofList]
        exact ⟨_, rfl⟩
      exact ⟨'\x22', ds, hds, by decide⟩
    · exact ih t ht

mutual

/-- Documents that are printed alike are one, and what comes after them is printed alike. -/
theorem eq_of_printed : ∀ {a b : Json} {x y : List Char}, a.floatsPass (·.isFinite) = true →
    b.floatsPass (·.isFinite) = true → Follows x → Follows y →
    a.text.toList ++ x = b.text.toList ++ y → a = b ∧ x = y
  | .null, b, x, y => fun ha hb hx hy h => by
    obtain ⟨htoken, hbehind⟩ := token_eq ha hb hx hy h
    cases b with
    | null => exact ⟨rfl, hbehind⟩
    | _ => cases htoken
  | .bool p, b, x, y => fun ha hb hx hy h => by
    obtain ⟨htoken, hbehind⟩ := token_eq ha hb hx hy h
    cases b with
    | bool q => exact ⟨congrArg Json.bool (Token.bool.inj htoken), hbehind⟩
    | _ => cases htoken
  | .int m, b, x, y => fun ha hb hx hy h => by
    obtain ⟨htoken, hbehind⟩ := token_eq ha hb hx hy h
    cases b with
    | int n => exact ⟨congrArg Json.int (eq_of_wholeSpelling (Token.number.inj htoken)), hbehind⟩
    | float d => exact absurd (Token.number.inj htoken).symm (shortest_ne_whole d m)
    | _ => cases htoken
  | .float c, b, x, y => fun ha hb hx hy h => by
    obtain ⟨htoken, hbehind⟩ := token_eq ha hb hx hy h
    cases b with
    | int n => exact absurd (Token.number.inj htoken) (shortest_ne_whole c n)
    | float d => exact ⟨congrArg Json.float (eq_of_shortest (Token.number.inj htoken)), hbehind⟩
    | _ => cases htoken
  | .str s, b, x, y => fun ha hb hx hy h => by
    obtain ⟨htoken, hbehind⟩ := token_eq ha hb hx hy h
    cases b with
    | str t => exact ⟨congrArg Json.str (eq_of_pieces (Token.string.inj htoken)), hbehind⟩
    | _ => cases htoken
  | .arr as, b, x, y => fun ha hb hx hy h => by
    obtain ⟨htoken, hbehind⟩ := token_eq ha hb hx hy h
    cases b with
    | arr bs =>
      simp only [floatsPass] at ha hb
      have hcommas := commas_of_closed (head_itemTexts ha) (head_itemTexts hb) hbehind
      obtain ⟨rfl, hrest⟩ := eq_of_printedItems ha hb hcommas
      exact ⟨rfl, hrest⟩
    | _ => cases htoken
  | .obj as, b, x, y => fun ha hb hx hy h => by
    obtain ⟨htoken, hbehind⟩ := token_eq ha hb hx hy h
    cases b with
    | obj bs =>
      simp only [floatsPass] at ha hb
      have hcommas := commas_of_closed (head_memberTexts as) (head_memberTexts bs) hbehind
      obtain ⟨rfl, hrest⟩ := eq_of_printedMembers ha hb hcommas
      exact ⟨rfl, hrest⟩
    | _ => cases htoken

theorem eq_of_printedItems : ∀ {as bs : List Json} {x y : List Char},
    floatsPassItems (·.isFinite) as = true → floatsPassItems (·.isFinite) bs = true →
    behindCommas (itemTexts as) ++ ']' :: x = behindCommas (itemTexts bs) ++ ']' :: y → as = bs ∧ x = y
  | [], bs, x, y => fun _ _ h => by
    cases bs with
    | nil => exact ⟨rfl, (List.cons.inj h).2⟩
    | cons b bs => exact absurd (List.cons.inj h).1 (by decide)
  | a :: as, bs, x, y => fun ha hb h => by
    cases bs with
    | nil => exact absurd (List.cons.inj h).1 (by decide)
    | cons b bs =>
      rw [floatsPassItems, Bool.and_eq_true] at ha hb
      rw [itemTexts, itemTexts, behindCommas_cons, behindCommas_cons] at h
      obtain ⟨rfl, hothers⟩ := eq_of_printed ha.1 hb.1 (follows_behindCommas _ (.inl rfl) x)
        (follows_behindCommas _ (.inl rfl) y) (List.cons.inj h).2
      obtain ⟨rfl, hrest⟩ := eq_of_printedItems ha.2 hb.2 hothers
      exact ⟨rfl, hrest⟩

theorem eq_of_printedMembers : ∀ {as bs : List (String × Json)} {x y : List Char},
    floatsPassMembers (·.isFinite) as = true → floatsPassMembers (·.isFinite) bs = true →
    behindCommas (memberTexts as) ++ '\x7d' :: x = behindCommas (memberTexts bs) ++ '\x7d' :: y →
    as = bs ∧ x = y
  | [], bs, x, y => fun _ _ h => by
    cases bs with
    | nil => exact ⟨rfl, (List.cons.inj h).2⟩
    | cons b bs => exact absurd (List.cons.inj h).1 (by decide)
  | (j, a) :: as, bs, x, y => fun ha hb h => by
    cases bs with
    | nil => exact absurd (List.cons.inj h).1 (by decide)
    | cons b bs =>
      obtain ⟨k, b⟩ := b
      rw [floatsPassMembers, Bool.and_eq_true] at ha hb
      rw [memberTexts, memberTexts, behindCommas_cons, behindCommas_cons] at h
      have hmember := (List.cons.inj h).2
      simp only [String.toList_append, List.append_assoc] at hmember
      have hnext := congrArg next? hmember
      rw [next?_quote, next?_quote] at hnext
      obtain ⟨hkey, hvalue⟩ := Prod.mk.inj (Option.some.inj hnext)
      obtain rfl := eq_of_pieces (Token.string.inj hkey)
      obtain ⟨rfl, hothers⟩ := eq_of_printed ha.1 hb.1 (follows_behindCommas _ (.inr rfl) x)
        (follows_behindCommas _ (.inr rfl) y) (List.append_cancel_left hvalue)
      obtain ⟨rfl, hrest⟩ := eq_of_printedMembers ha.2 hb.2 hothers
      exact ⟨rfl, hrest⟩

end

/-- Documents are told apart by their texts. -/
theorem text_inj {a b : Json} (ha : a.floatsPass (·.isFinite) = true)
    (hb : b.floatsPass (·.isFinite) = true) : a.text = b.text ↔ a = b := by
  refine ⟨fun h => ?_, congrArg text⟩
  refine (eq_of_printed ha hb (x := []) (y := []) ?_ ?_ (by rw [h])).1 <;> rintro _ ⟨⟩

/-- A hundred as a float keeps its fraction, and a line end stands behind a backslash. -/
example : (Json.arr [.float ⟨0x4059000000000000⟩, .int (-3), .str "a\n"]).text =
    "[100.0,-3,\"a\\n\"]" := by decide +kernel

end GraphLoad.Json
