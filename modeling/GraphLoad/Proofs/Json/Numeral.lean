/-
Numerals as they are printed and as they are read. A decimal in scientific notation is spelled by digits, a
fraction and an exponent; the reader of numerals finds these parts again, and they stand for the number of
the decimal.
-/
import GraphLoad.Json.Token
import GraphLoad.Number.Notation
import GraphLoad.Proofs.Number.Shortest

namespace GraphLoad

variable {x cs : List Char} {n : ℕ}

/-! ## Digits -/

theorem isDigit_of_mem_toDigits {c : Char} (h : c ∈ Nat.toDigits 10 n) : c.isDigit = true :=
  Nat.isDigit_of_mem_toDigits (by decide) (by decide) h

/-- The digits of a number that is not zero do not start with a zero. -/
theorem head?_toDigits_ne (hn : n ≠ 0) : (Nat.toDigits 10 n).head? ≠ some '0' := by
  induction n using Nat.strongRecOn with
  | ind n ih =>
    rcases Nat.lt_or_ge n 10 with hlt | hge
    · have hone : ∀ m < 10, m ≠ 0 → Nat.digitChar m ≠ '0' := by decide
      rw [Nat.toDigits_of_lt_base hlt, List.head?_cons]
      exact fun h => hone n hlt hn (Option.some.inj h)
    · rw [Nat.toDigits_of_base_le (by decide) hge, List.head?_append_of_ne_nil _ Nat.toDigits_ne_nil]
      exact ih (n / 10) (by omega) (by omega)

namespace Json

/-- What may stand behind a document: nothing, a comma or a closing bracket. -/
def Follows (x : List Char) : Prop := ∀ c ∈ x.head?, c = ',' ∨ c = ']' ∨ c = '\x7d'

namespace Numeral

/-- The values of digits. -/
def digits (cs : List Char) : List ℕ := cs.map fun c => c.toNat - 48

/-- The number that digits write. -/
def number (ds : List ℕ) : ℕ := ds.foldl (10 * · + ·) 0

theorem number_digits (cs : List Char) : number (digits cs) = Nat.ofDigitChars 10 cs 0 := by
  rw [number, digits, List.foldl_map]
  rfl

/-- The exponent as it is written. -/
def power (n : Numeral) : ℤ :=
  match n.exponent with
  | none => 0
  | some (down, ds) => if down then -number ds else number ds

/-- The magnitude a numeral stands for, before it is rounded to a double. -/
def value (n : Numeral) : ℚ :=
  number (n.whole ++ n.fraction.getD []) * (10 : ℚ) ^ (n.power - (n.fraction.getD []).length)

end Numeral

/-! ## Spellings -/

/-- A numeral without its sign, as it is written. -/
structure Spelling where
  whole : List Char
  fraction : Option (List Char)
  exponent : Option (Bool × List Char)

namespace Spelling

variable {s : Spelling}

/-- The characters of an exponent. -/
def exponentChars (e : Bool × List Char) : List Char := 'e' :: (if e.1 then '-' else '+') :: e.2

/-- The characters of a numeral. -/
def chars (s : Spelling) : List Char :=
  s.whole ++ (s.fraction.elim [] ('.' :: ·) ++ s.exponent.elim [] exponentChars)

/-- The numeral that is written. -/
def numeral (s : Spelling) (negative : Bool) : Numeral :=
  ⟨negative, Numeral.digits s.whole, s.fraction.map Numeral.digits,
    s.exponent.map fun e => (e.1, Numeral.digits e.2)⟩

/-- A numeral without an exponent. -/
theorem chars_point (w f : List Char) : (⟨w, some f, none⟩ : Spelling).chars = w ++ '.' :: f :=
  congrArg (fun cs => w ++ '.' :: cs) (List.append_nil f)

theorem value_numeral (s : Spelling) (negative : Bool) : (s.numeral negative).value =
    Nat.ofDigitChars 10 (s.whole ++ s.fraction.getD []) 0 *
      (10 : ℚ) ^ ((s.numeral negative).power - (s.fraction.getD []).length) := by
  have hfraction : (s.numeral negative).fraction.getD [] = Numeral.digits (s.fraction.getD []) := by
    cases hf : s.fraction <;> rw [numeral, hf] <;> rfl
  have happend : Numeral.digits s.whole ++ Numeral.digits (s.fraction.getD []) =
      Numeral.digits (s.whole ++ s.fraction.getD []) := List.map_append.symm
  have hlength : (Numeral.digits (s.fraction.getD [])).length = (s.fraction.getD []).length :=
    List.length_map _
  rw [Numeral.value, hfraction, hlength, ← Numeral.number_digits, ← happend]
  rfl

/-- An exponent is written by its sign and its digits. -/
theorem power_numeral (w : List Char) (f : Option (List Char)) (e : ℤ) (negative : Bool) :
    (numeral ⟨w, f, some (decide (e < 0), Nat.toDigits 10 e.natAbs)⟩ negative).power = e := by
  show (if decide (e < 0) = true then -(Numeral.number (Numeral.digits _) : ℤ)
    else Numeral.number (Numeral.digits _)) = e
  rw [Numeral.number_digits, Nat.ofDigitChars_ten_toDigits]
  split <;> rename_i he <;> simp only [decide_eq_true_eq] at he <;> omega

/-- A run of one digit or more. -/
def Run (cs : List Char) : Prop := cs ≠ [] ∧ ∀ c ∈ cs, c.isDigit = true

theorem Run.append {cs ds : List Char} (h : Run cs) (hds : ∀ c ∈ ds, c.isDigit = true) :
    Run (cs ++ ds) := by
  refine ⟨List.append_ne_nil_of_left_ne_nil h.1 ds, fun c hc => ?_⟩
  exact (List.mem_append.1 hc).elim (h.2 c) (hds c)

theorem Run.take {cs : List Char} {n : ℕ} (h : Run cs) (hn : 0 < n) : Run (cs.take n) := by
  refine ⟨fun hnil => ?_, fun c hc => h.2 c (List.mem_of_mem_take hc)⟩
  rcases List.take_eq_nil_iff.1 hnil with hzero | hcs
  · omega
  · exact h.1 hcs

theorem Run.drop {cs : List Char} {n : ℕ} (h : Run cs) (hn : n < cs.length) : Run (cs.drop n) := by
  refine ⟨fun hnil => ?_, fun c hc => h.2 c (List.mem_of_mem_drop hc)⟩
  have := List.drop_eq_nil_iff.1 hnil
  omega

/-- Every part has a digit, and a zero only leads alone. -/
structure Proper (s : Spelling) : Prop where
  whole : Run s.whole
  lead : s.whole.head? = some '0' → s.whole = ['0']
  fraction : ∀ f ∈ s.fraction, Run f
  exponent : ∀ e ∈ s.exponent, Run e.2

theorem proper_point {w f : List Char} (hw : Run w) (hlead : w.head? = some '0' → w = ['0'])
    (hf : Run f) : Proper ⟨w, some f, none⟩ :=
  ⟨hw, hlead, fun _ h => Option.some.inj h ▸ hf, fun _ h => nomatch h⟩

end Spelling

namespace Token

open Spelling

theorem takeDigits_append (hcs : Run cs) (hx : ∀ c ∈ x.head?, c.isDigit = false) :
    takeDigits (cs ++ x) = (Numeral.digits cs, x) := by
  have hstop : x.takeWhile Char.isDigit = [] ∧ x.dropWhile Char.isDigit = x := by
    cases x with
    | nil => exact ⟨rfl, rfl⟩
    | cons c x =>
      have hc : ¬c.isDigit = true := by
        rw [hx c rfl]
        decide
      exact ⟨List.takeWhile_cons_of_neg hc, List.dropWhile_cons_of_neg hc⟩
  rw [takeDigits, List.takeWhile_append_of_pos hcs.2, List.dropWhile_append_of_pos hcs.2, hstop.1,
    hstop.2, List.append_nil, Numeral.digits]

theorem digits_ne_nil (hcs : Run cs) : Numeral.digits cs ≠ [] :=
  mt List.map_eq_nil_iff.1 hcs.1

theorem fraction?_of_run (hcs : Run cs) (hx : ∀ c ∈ x.head?, c.isDigit = false) :
    fraction? ('.' :: cs ++ x) = some (some (Numeral.digits cs), x) := by
  rw [List.cons_append, fraction?, takeDigits_append hcs hx]
  split
  · rename_i h
    exact absurd (Prod.mk.inj h).1 (digits_ne_nil hcs)
  · rename_i h
    obtain ⟨rfl, rfl⟩ := Prod.mk.inj h
    rfl

theorem fraction?_of_ne (hx : ∀ c ∈ x.head?, c ≠ '.') : fraction? x = some (none, x) := by
  cases x with
  | nil => rfl
  | cons c x =>
    rw [fraction?]
    rintro cs h
    exact hx c rfl (List.cons.inj h).1

theorem exponentDigits?_of_run {down : Bool} (hcs : Run cs) (hx : ∀ c ∈ x.head?, c.isDigit = false) :
    exponentDigits? down (cs ++ x) = some (some (down, Numeral.digits cs), x) := by
  rw [exponentDigits?, takeDigits_append hcs hx]
  split
  · rename_i h
    exact absurd (Prod.mk.inj h).1 (digits_ne_nil hcs)
  · rename_i h
    obtain ⟨rfl, rfl⟩ := Prod.mk.inj h
    rfl

theorem exponent?_of_run (down : Bool) (hcs : Run cs) (hx : ∀ c ∈ x.head?, c.isDigit = false) :
    exponent? ('e' :: (if down then '-' else '+') :: (cs ++ x)) =
      some (some (down, Numeral.digits cs), x) := by
  cases down <;> exact exponentDigits?_of_run hcs hx

theorem exponent?_of_ne (hx : ∀ c ∈ x.head?, c ≠ 'e' ∧ c ≠ 'E') :
    exponent? x = some (none, x) := by
  cases x with
  | nil => rfl
  | cons c x =>
    obtain ⟨he, hE⟩ := hx c rfl
    exact if_neg (by rintro (h | h) <;> contradiction)

/-- Digits with a value of zero in front. -/
theorem digits_ne_lead {s : Spelling} (hs : s.Proper) (d : ℕ) (ds : List ℕ) :
    Numeral.digits s.whole ≠ 0 :: d :: ds := by
  intro h
  obtain ⟨c, cs, hw, hc, hcs⟩ := List.map_eq_cons_iff.1 h
  have hdigit := hs.whole.2 c (hw ▸ List.mem_cons_self ..)
  have hzero : c = '0' := by
    have hle := (Char.isDigit_iff_toNat.1 hdigit).1
    have hval : '0'.toNat = 48 := rfl
    exact Char.toNat_inj.1 (by omega)
  have := hs.lead (by rw [hw, hzero]; rfl)
  rw [hw, hzero, List.cons.injEq] at this
  rw [this.2] at hcs
  cases hcs

/-- A numeral is read as it is spelled. -/
theorem numeral?_chars {s : Spelling} (hs : s.Proper) (hx : Follows x) (negative : Bool) :
    numeral? negative (s.chars ++ x) = some (s.numeral negative, x) := by
  -- behind each part stands something that cannot belong to it
  have hfollow : ∀ c ∈ x.head?, c.isDigit = false ∧ c ≠ '.' ∧ c ≠ 'e' ∧ c ≠ 'E' := by
    intro c hc
    rcases hx c hc with rfl | rfl | rfl <;> decide
  have hexponent : exponent? (s.exponent.elim [] exponentChars ++ x) =
      some (s.exponent.map fun e => (e.1, Numeral.digits e.2), x) ∧
      ∀ c ∈ (s.exponent.elim [] exponentChars ++ x).head?, c.isDigit = false ∧ c ≠ '.' := by
    cases he : s.exponent with
    | none =>
      refine ⟨exponent?_of_ne fun c hc => (hfollow c hc).2.2, fun c hc => ?_⟩
      exact ⟨(hfollow c hc).1, (hfollow c hc).2.1⟩
    | some e =>
      refine ⟨exponent?_of_run e.1 (hs.exponent e he) fun c hc => (hfollow c hc).1, ?_⟩
      rintro _ ⟨⟩
      decide
  have hfraction : fraction? (s.fraction.elim [] ('.' :: ·) ++ (s.exponent.elim [] exponentChars ++ x)) =
      some (s.fraction.map Numeral.digits, s.exponent.elim [] exponentChars ++ x) ∧
      ∀ c ∈ (s.fraction.elim [] ('.' :: ·) ++ (s.exponent.elim [] exponentChars ++ x)).head?,
        c.isDigit = false := by
    cases hf : s.fraction with
    | none =>
      exact ⟨fraction?_of_ne fun c hc => (hexponent.2 c hc).2, fun c hc => (hexponent.2 c hc).1⟩
    | some f =>
      refine ⟨fraction?_of_run (hs.fraction f hf) fun c hc => (hexponent.2 c hc).1, ?_⟩
      rintro _ ⟨⟩
      decide
  rw [numeral?, chars, List.append_assoc, List.append_assoc, takeDigits_append hs.whole hfraction.2]
  split
  · rename_i h
    exact absurd (Prod.mk.inj h).1 (digits_ne_nil hs.whole)
  · rename_i h
    exact absurd (Prod.mk.inj h).1 (digits_ne_lead hs _ _)
  · rename_i h
    obtain ⟨rfl, rfl⟩ := Prod.mk.inj h
    rw [hfraction.1]
    dsimp only
    rw [hexponent.1]
    rfl

end Token

end Json

/-! ## Decimals -/

namespace Decimal

open Json

variable {d : Decimal}

/-- The parts of scientific notation. -/
def spelling (d : Decimal) : Spelling :=
  let text := Nat.toDigits 10 d.digits
  let point : Int := width d.digits + d.exponent
  if point ≤ 16 ∧ -5 < point then
    if 0 ≤ d.exponent then ⟨text ++ List.replicate d.exponent.toNat '0', some ['0'], none⟩
    else if 0 < point then ⟨text.take point.toNat, some (text.drop point.toNat), none⟩
    else ⟨['0'], some (List.replicate (-point).toNat '0' ++ text), none⟩
  else
    ⟨text.take 1, if width d.digits ≤ 1 then none else some (text.drop 1),
      some (decide (point - 1 < 0), Nat.toDigits 10 (point - 1).natAbs)⟩

theorem toList_digitText (n : ℕ) : (digitText n).toList = Nat.toDigits 10 n := String.toList_ofList

theorem toList_zeros (n : ℕ) : (zeros n).toList = List.replicate n '0' := String.toList_ofList

theorem toList_pointAfter (n : ℕ) (t : String) :
    (pointAfter n t).toList = t.toList.take n ++ '.' :: t.toList.drop n := String.toList_ofList

theorem toList_exponentText (e : ℤ) :
    (exponentText e).toList = Spelling.exponentChars (decide (e < 0), Nat.toDigits 10 e.natAbs) := by
  rw [exponentText, String.toList_append, toList_digitText, Spelling.exponentChars]
  by_cases he : e < 0
  · rw [if_pos he, if_pos (decide_eq_true he)]
    rfl
  · rw [if_neg he, decide_eq_false he]
    rfl

/-- Scientific notation is spelled by its parts. -/
theorem toList_scientific (d : Decimal) : d.scientific.toList = d.spelling.chars := by
  rw [scientific, spelling]
  by_cases hpoint : (width d.digits : ℤ) + d.exponent ≤ 16 ∧ -5 < (width d.digits : ℤ) + d.exponent
  · by_cases hexp : 0 ≤ d.exponent
    · rw [if_pos hpoint, if_pos hpoint, if_pos hexp, if_pos hexp, String.toList_append, positional,
        if_pos hexp, String.toList_append, toList_digitText, toList_zeros, Spelling.chars_point]
      rfl
    · rw [if_pos hpoint, if_pos hpoint, if_neg hexp, if_neg hexp, positional, if_neg hexp]
      split
      · rw [toList_pointAfter, toList_digitText, Spelling.chars_point]
      · rw [String.toList_append, String.toList_append, toList_digitText, toList_zeros,
          Spelling.chars_point]
        rfl
  · rw [if_neg hpoint, if_neg hpoint, exponential, String.toList_append, toList_exponentText]
    split
    · rename_i hone
      rw [toList_digitText, Spelling.chars, List.take_of_length_le hone]
      rfl
    · rw [toList_pointAfter, toList_digitText, List.append_assoc]
      rfl

/-- The parts of scientific notation stand for the number. -/
theorem value_spelling (d : Decimal) (negative : Bool) :
    (d.spelling.numeral negative).value = d.value := by
  have hdigits : Nat.ofDigitChars 10 (Nat.toDigits 10 d.digits) 0 = d.digits :=
    Nat.ofDigitChars_ten_toDigits
  have hlength : (Nat.toDigits 10 d.digits).length = width d.digits := rfl
  rw [Spelling.value_numeral, value, spelling]
  by_cases hpoint : (width d.digits : ℤ) + d.exponent ≤ 16 ∧ -5 < (width d.digits : ℤ) + d.exponent
  · by_cases hexp : 0 ≤ d.exponent
    · obtain ⟨n, hn⟩ := Int.eq_ofNat_of_zero_le hexp
      rw [if_pos hpoint, if_pos hexp]
      simp only [Option.getD_some, Nat.ofDigitChars_append, hdigits, Nat.ofDigitChars_replicate_zero]
      rw [hn, Int.toNat_natCast, zpow_natCast]
      show ((10 * (10 ^ n * d.digits) + 0 : ℕ) : ℚ) * (10 : ℚ) ^ (-1 : ℤ) = _
      push_cast
      ring
    · rw [if_pos hpoint, if_neg hexp]
      split
      · rename_i hinside
        simp only [Option.getD_some, List.take_append_drop, hdigits, List.length_drop, hlength]
        congr 2
        show 0 - _ = _
        omega
      · rename_i hleft
        simp only [Option.getD_some, List.cons_append, List.nil_append, Nat.ofDigitChars_cons,
          Nat.ofDigitChars_append, Nat.ofDigitChars_replicate_zero]
        show ((Nat.ofDigitChars 10 _ 0 : ℕ) : ℚ) * _ = _
        rw [hdigits, List.length_append, List.length_replicate, hlength]
        congr 2
        show 0 - _ = _
        omega
  · rw [if_neg hpoint, Spelling.power_numeral]
    split
    · rename_i hone
      have hpos : 0 < width d.digits := Nat.length_toDigits_pos
      rw [Option.getD_none, List.append_nil, List.take_of_length_le hone, hdigits]
      congr 2
      rw [List.length_nil]
      omega
    · rename_i hmore
      rw [Option.getD_some, List.take_append_drop, hdigits, List.length_drop, hlength]
      congr 2
      omega

theorem run_toDigits (n : ℕ) : Spelling.Run (Nat.toDigits 10 n) :=
  ⟨Nat.toDigits_ne_nil, fun _ => isDigit_of_mem_toDigits⟩

theorem isDigit_of_mem_replicate {c : Char} {n : ℕ} (h : c ∈ List.replicate n '0') :
    c.isDigit = true := by
  rw [List.eq_of_mem_replicate h]
  rfl

/-- The parts of scientific notation have digits, and no zero leads the digits of a number. -/
theorem proper_spelling (h : d.digits = 0 → d.exponent ≤ 0) : d.spelling.Proper := by
  have hrun := run_toDigits d.digits
  have hzero : Spelling.Run ['0'] := ⟨List.cons_ne_nil _ _, List.forall_mem_singleton.2 rfl⟩
  have hlength : (Nat.toDigits 10 d.digits).length = width d.digits := rfl
  rw [spelling]
  by_cases hpoint : (width d.digits : ℤ) + d.exponent ≤ 16 ∧ -5 < (width d.digits : ℤ) + d.exponent
  · by_cases hexp : 0 ≤ d.exponent
    · rw [if_pos hpoint, if_pos hexp]
      refine Spelling.proper_point (hrun.append fun _ => isDigit_of_mem_replicate) (fun hlead => ?_) hzero
      by_cases hd : d.digits = 0
      · rw [hd, le_antisymm (h hd) hexp]
        rfl
      · rw [List.head?_append_of_ne_nil _ hrun.1] at hlead
        exact absurd hlead (head?_toDigits_ne hd)
    · rw [if_pos hpoint, if_neg hexp]
      split
      · rename_i hinside
        refine Spelling.proper_point (hrun.take (by omega)) (fun hlead => ?_) (hrun.drop (by omega))
        have hd : d.digits ≠ 0 := by
          intro hd
          have hone : width d.digits = 1 := by rw [hd]; rfl
          omega
        rw [List.head?_take, if_neg (by omega)] at hlead
        exact absurd hlead (head?_toDigits_ne hd)
      · refine Spelling.proper_point hzero (fun _ => rfl) ⟨?_, fun c hc => ?_⟩
        · exact List.append_ne_nil_of_right_ne_nil _ hrun.1
        · exact (List.mem_append.1 hc).elim isDigit_of_mem_replicate (hrun.2 c)
  · rw [if_neg hpoint]
    refine ⟨hrun.take one_pos, fun hlead => ?_, fun f hf => ?_, fun e he => ?_⟩
    · obtain ⟨c, cs, hcs⟩ := List.exists_cons_of_ne_nil hrun.1
      rw [hcs] at hlead ⊢
      cases hlead
      rfl
    · split at hf
      · cases hf
      · cases hf
        exact hrun.drop (by omega)
    · cases he
      exact run_toDigits _

/-- Scientific notation has a fraction or an exponent. -/
theorem some_of_spelling (d : Decimal) :
    d.spelling.fraction.isSome = true ∨ d.spelling.exponent.isSome = true := by
  rw [spelling]
  split
  · left
    split
    · rfl
    · split <;> rfl
  · right
    rfl

end Decimal

end GraphLoad
