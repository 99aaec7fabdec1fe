/-
SQL text as tokens. A text is scanned character by character, with what has been met of the token that
is not complete yet; between the quotes of a name every character stands for itself but the quote, which
is written twice. Shown here: texts that meet at a character that can go on no token are read one after
the other, names in quotes are read as what was enclosed, and so are words, numbers and the marks of
parameters.
-/
import GraphLoad.Request.Order
import GraphLoad.Sql.Condition

namespace GraphLoad.Sql

/-! ## Tokens -/

/-- How a parameter is marked: as the next one, or by its number. -/
inductive Mark
  | next
  | numbered (digits : String)
deriving DecidableEq

/-- The mark of the parameter with this number, counted from one. -/
def Dialect.mark : Dialect → Nat → Mark
  | postgres, n => .numbered (toString n)
  | mysql, _ => .next
  | sqlite, _ => .next

/-- The tokens of a text: words, names in quotes without these, numbers, signs, and parameters as `μ`. -/
inductive Token (μ : Type)
  | word (text : String)
  | name (text : String)
  | number (digits : String)
  | mark (m : μ)
  | operator (c : Comparison)
  | opening
  | closing
  | comma
  | dot
  | star
  | minus
deriving DecidableEq

/-! ## Scanning -/

/-- What has been met of a token that is not complete yet. -/
inductive Pending
  | nothing
  | word (cs : List Char)
  | number (cs : List Char)
  | marked (digits : List Char)
  | inside (cs : List Char)
  | quoted (cs : List Char)
  | less
  | greater
  | bang

/-- The token that is complete if nothing more is met of it. -/
def Pending.flush : Pending → Option (List (Token Mark))
  | .nothing => some []
  | .word cs => some [.word (String.ofList cs)]
  | .number cs => some [.number (String.ofList cs)]
  | .marked digits => if digits = [] then none else some [.mark (.numbered (String.ofList digits))]
  | .inside _ => none
  | .quoted cs => some [.name (String.ofList cs)]
  | .less => some [.operator .less]
  | .greater => some [.operator .greater]
  | .bang => none

/-- The tokens of a single character. -/
def sign? : Char → Option (Token Mark)
  | '(' => some .opening
  | ')' => some .closing
  | ',' => some .comma
  | '.' => some .dot
  | '*' => some .star
  | '-' => some .minus
  | '=' => some (.operator .equal)
  | '?' => some (.mark .next)
  | _ => none

/-- What a character is where a token may start. Names are enclosed by `q`. -/
def begin? (q c : Char) : Option (List (Token Mark) × Pending) :=
  if c = ' ' then some ([], .nothing)
  else if c = q then some ([], .inside [])
  else if OrderTerm.isStart c then some ([], .word [c])
  else if c.isDigit then some ([], .number [c])
  else if c = '$' then some ([], .marked [])
  else if c = '<' then some ([], .less)
  else if c = '>' then some ([], .greater)
  else if c = '!' then some ([], .bang)
  else (sign? c).map fun t => ([t], .nothing)

/-- What a character is that goes on the token met before it, if it does. -/
def Pending.extend? (q : Char) : Pending → Char → Option (List (Token Mark) × Pending)
  | .nothing, _ => none
  | .word cs, c => if OrderTerm.isFollower c then some ([], .word (cs ++ [c])) else none
  | .number cs, c => if c.isDigit then some ([], .number (cs ++ [c])) else none
  | .marked cs, c => if c.isDigit then some ([], .marked (cs ++ [c])) else none
  | .inside cs, c => if c = q then some ([], .quoted cs) else some ([], .inside (cs ++ [c]))
  | .quoted cs, c => if c = q then some ([], .inside (cs ++ [c])) else none
  | .less, c => if c = '=' then some ([.operator .lessOrEqual], .nothing) else none
  | .greater, c => if c = '=' then some ([.operator .greaterOrEqual], .nothing) else none
  | .bang, c => if c = '=' then some ([.operator .notEqual], .nothing) else none

/-- Takes one character. -/
def Pending.step (q : Char) (p : Pending) (c : Char) : Option (List (Token Mark) × Pending) :=
  match p.extend? q c with
  | some r => some r
  | none => p.flush.bind fun ts => (begin? q c).map fun r => (ts ++ r.1, r.2)

/-- Takes some characters, one after the other. -/
def Pending.scan (q : Char) : Pending → List Char → Option (List (Token Mark) × Pending)
  | p, [] => some ([], p)
  | p, c :: cs =>
    (p.step q c).bind fun r => (r.2.scan q cs).map fun r' => (r.1 ++ r'.1, r'.2)

/-- The tokens of a text in which names are enclosed by `q`, if it has any reading. -/
def lex (q : Char) (cs : List Char) : Option (List (Token Mark)) :=
  (Pending.nothing.scan q cs).bind fun r => r.2.flush.map (r.1 ++ ·)

/-! ## Texts one after the other -/

variable {q c : Char} {p : Pending} {xs ys : List Char} {ts us : List (Token Mark)}

theorem Pending.scan_append (q : Char) (p : Pending) (xs ys : List Char) : p.scan q (xs ++ ys) =
    (p.scan q xs).bind fun r => (r.2.scan q ys).map fun r' => (r.1 ++ r'.1, r'.2) := by
  induction xs generalizing p with
  | nil =>
    cases h : p.scan q ys <;> simp [scan, h]
  | cons x xs ih =>
    simp only [List.cons_append, scan]
    cases p.step q x with
    | none => rfl
    | some r =>
      simp only [Option.bind_some, ih]
      cases r.2.scan q xs with
      | none => rfl
      | some r' =>
        simp only [Option.bind_some, Option.map_some]
        cases r'.2.scan q ys <;> simp

/-- A character that goes on no token. -/
structure Stops (q c : Char) : Prop where
  follower : OrderTerm.isFollower c = false
  quote : c ≠ q
  equals : c ≠ '='

theorem Stops.isDigit (h : Stops q c) : c.isDigit = false := by
  have := h.follower
  simp only [OrderTerm.isFollower, Char.isAlphanum, Bool.or_eq_false_iff] at this
  exact this.1.2

theorem Stops.extend? (h : Stops q c) (hp : p.flush = some ts) : p.extend? q c = none := by
  cases p with
  | inside cs => cases hp
  | _ => simp [Pending.extend?, h.follower, h.isDigit, h.quote, h.equals]

/-- Such a character starts a token behind the one that it completes, as it does at the beginning. -/
theorem Stops.step (h : Stops q c) (hp : p.flush = some ts) :
    p.step q c = (begin? q c).map fun r => (ts ++ r.1, r.2) := by
  rw [Pending.step, h.extend? hp, hp]
  rfl

theorem step_nothing (q c : Char) : Pending.nothing.step q c = begin? q c := by
  simp [Pending.step, Pending.extend?, Pending.flush]

/-- Texts that meet at a character that goes on no token are read one after the other. -/
theorem lex_append (hc : Stops q c) (hx : lex q xs = some ts) (hy : lex q (c :: ys) = some us) :
    lex q (xs ++ c :: ys) = some (ts ++ us) := by
  obtain ⟨⟨ts₁, p⟩, hscan, hx⟩ := Option.bind_eq_some_iff.1 hx
  obtain ⟨ts₂, hflush, rfl⟩ := Option.map_eq_some_iff.1 hx
  obtain ⟨⟨us₁, p'⟩, hscan', hy⟩ := Option.bind_eq_some_iff.1 hy
  obtain ⟨us₂, hflush', rfl⟩ := Option.map_eq_some_iff.1 hy
  rw [Pending.scan, step_nothing] at hscan'
  obtain ⟨r, hbegin, hrest⟩ := Option.bind_eq_some_iff.1 hscan'
  obtain ⟨r', hr', heq⟩ := Option.map_eq_some_iff.1 hrest
  cases heq
  have hgoes : p.scan q (c :: ys) = some (ts₂ ++ (r.1 ++ r'.1), r'.2) := by
    simp [Pending.scan, hc.step hflush, hbegin, hr']
  rw [lex, Pending.scan_append, hscan]
  simp [hgoes, hflush']

/-- A character that is a token, or a blank, is read before the rest. -/
theorem lex_cons (hc : begin? q c = some (ts, .nothing)) (hy : lex q ys = some us) :
    lex q (c :: ys) = some (ts ++ us) := by
  obtain ⟨⟨us₁, p⟩, hscan, hy⟩ := Option.bind_eq_some_iff.1 hy
  obtain ⟨us₂, hflush, rfl⟩ := Option.map_eq_some_iff.1 hy
  rw [lex, Pending.scan, step_nothing, hc]
  simp [hscan, hflush]

theorem lex_nil (q : Char) : lex q [] = some [] := rfl

/-! ## Signs -/

/-- The characters that enclose names in one dialect or another. -/
def IsQuote (q : Char) : Prop := q = '\x22' ∨ q = '\x60'

theorem IsQuote.double : IsQuote '\x22' := .inl rfl

/-- A run of characters each of which goes on the same token. -/
theorem Pending.scan_run {f : List Char → Pending} {P : Char → Bool}
    (h : ∀ cs c, P c = true → (f cs).extend? q c = some ([], f (cs ++ [c]))) (cs xs : List Char)
    (hxs : xs.all P = true) : (f cs).scan q xs = some ([], f (cs ++ xs)) := by
  induction xs generalizing cs with
  | nil => simp [scan]
  | cons x xs ih =>
    simp only [List.all_cons, Bool.and_eq_true] at hxs
    simp [scan, step, h cs x hxs.1, ih _ hxs.2]

/-- Between quotes every character stands for itself, the quote being written twice. -/
theorem Pending.scan_inside (q : Char) (cs xs : List Char) :
    (Pending.inside cs).scan q (xs.flatMap fun c => if c = q then [q, q] else [c]) =
      some ([], .inside (cs ++ xs)) := by
  induction xs generalizing cs with
  | nil => simp [scan]
  | cons x xs ih =>
    rw [List.flatMap_cons]
    by_cases hx : x = q
    · subst hx
      simp [scan, step, extend?, ih]
    · simp [scan, step, extend?, hx, ih]

/-- A text of digits. -/
structure Digits (s : String) : Prop where
  ne_nil : s.toList ≠ []
  all : s.toList.all Char.isDigit = true

theorem digits_toString (n : Nat) : Digits (toString n) := by
  have htext : (toString n).toList = Nat.toDigits 10 n := Nat.toList_repr
  constructor
  · rw [htext]
    exact Nat.toDigits_ne_nil
  · rw [htext, List.all_eq_true]
    intro c hc
    exact Nat.isDigit_of_mem_toDigits (by omega) (by omega) hc

/-- No name starts with a digit. -/
theorem not_start_of_digit (h : c.isDigit = true) : OrderTerm.isStart c = false := by
  have hne : c ≠ '_' := by
    rintro rfl
    exact absurd h (by decide)
  simp only [Char.isDigit, ge_iff_le, Bool.and_eq_true, decide_eq_true_eq,
    UInt32.le_iff_toNat_le] at h
  have hupper : 'A'.val.toNat = 65 := rfl
  have hlower : 'a'.val.toNat = 97 := rfl
  have hnine : '9'.val.toNat = 57 := rfl
  delta OrderTerm.isStart Char.isAlpha Char.isUpper Char.isLower
  simp only [ge_iff_le, Bool.or_eq_false_iff, Bool.and_eq_false_iff, decide_eq_false_iff_not,
    UInt32.le_iff_toNat_le, beq_eq_false_iff_ne]
  refine ⟨⟨?_, ?_⟩, hne⟩ <;> omega

section
variable (hq : IsQuote q)
include hq

theorem begin_blank : begin? q ' ' = some ([], .nothing) := by
  obtain rfl | rfl := hq <;> rfl

theorem lex_blank (hy : lex q ys = some us) : lex q (' ' :: ys) = some us :=
  lex_cons (begin_blank hq) hy

/-- Blanks, dots, commas and closing parentheses go on no token. -/
theorem stops_of (hc : c = ' ' ∨ c = '.' ∨ c = ',' ∨ c = ')') : Stops q c := by
  obtain rfl | rfl := hq
  all_goals
    rcases hc with rfl | rfl | rfl | rfl <;> constructor <;> decide

theorem begin_sign {t : Token Mark} (hc : sign? c = some t) : begin? q c = some ([t], .nothing) := by
  unfold sign? at hc
  split at hc
  all_goals cases hc
  all_goals obtain rfl | rfl := hq <;> rfl

/-- A sign is read before the rest. -/
theorem lex_sign {t : Token Mark} (hc : sign? c = some t) (hy : lex q ys = some us) :
    lex q (c :: ys) = some (t :: us) :=
  lex_cons (begin_sign hq hc) hy

/-- Texts with a blank between them. -/
theorem lex_spaced (hx : lex q xs = some ts) (hy : lex q ys = some us) :
    lex q (xs ++ ' ' :: ys) = some (ts ++ us) :=
  lex_append (stops_of hq (.inl rfl)) hx (lex_blank hq hy)

/-- A text before a closing parenthesis. -/
theorem lex_closed (hx : lex q xs = some ts) : lex q (xs ++ [')']) = some (ts ++ [.closing]) :=
  lex_append (stops_of hq (by simp)) hx (lex_sign hq rfl (lex_nil q))

/-! ## Words, numbers and parameters -/

/-- A bare name is a word. -/
theorem lex_word {s : String} (h : OrderTerm.isIdentifier s = true) :
    lex q s.toList = some [.word s] := by
  unfold OrderTerm.isIdentifier at h
  split at h
  · cases h
  · rename_i c cs hs
    simp only [Bool.and_eq_true] at h
    have hblank : c ≠ ' ' := by rintro rfl; exact absurd h.1 (by decide)
    have hquote : c ≠ q := by
      rintro rfl
      obtain rfl | rfl := hq <;> exact absurd h.1 (by decide)
    have hbegin : begin? q c = some ([], .word [c]) := by
      simp [begin?, hblank, hquote, h.1]
    rw [hs, lex, Pending.scan, step_nothing, hbegin]
    have hrun := Pending.scan_run (q := q) (f := .word) (P := OrderTerm.isFollower)
      (fun cs c hc => by simp [Pending.extend?, hc]) [c] cs h.2
    simp [hrun, Pending.flush, ← hs]

/-- A name in quotes is what was enclosed. -/
theorem lex_enclose (s : String) : lex q (enclose q s).toList = some [.name s] := by
  have hbegin : begin? q q = some ([], .inside []) := by
    obtain rfl | rfl := hq <;> rfl
  rw [enclose, String.toList_ofList, lex, List.cons_append, Pending.scan, step_nothing, hbegin]
  simp [Pending.scan_append, Pending.scan_inside q [] s.toList, Pending.scan, Pending.step,
    Pending.extend?, Pending.flush]

/-- Digits are a number. -/
theorem lex_digits {s : String} (h : Digits s) : lex q s.toList = some [.number s] := by
  obtain ⟨hne, hall⟩ := h
  cases hs : s.toList with
  | nil => exact absurd hs hne
  | cons c cs =>
    rw [hs, List.all_cons, Bool.and_eq_true] at hall
    have hblank : c ≠ ' ' := by rintro rfl; exact absurd hall.1 (by decide)
    have hquote : c ≠ q := by
      rintro rfl
      obtain rfl | rfl := hq <;> exact absurd hall.1 (by decide)
    have hbegin : begin? q c = some ([], .number [c]) := by
      simp [begin?, hblank, hquote, not_start_of_digit hall.1, hall.1]
    have hrun := Pending.scan_run (q := q) (f := .number) (P := Char.isDigit)
      (fun cs c hc => by simp [Pending.extend?, hc]) [c] cs hall.2
    rw [lex, Pending.scan, step_nothing, hbegin]
    simp [hrun, Pending.flush, ← hs]

/-- Digits behind the sign for it are the mark of a parameter. -/
theorem lex_numbered {s : String} (h : Digits s) :
    lex q ('$' :: s.toList) = some [.mark (.numbered s)] := by
  have hbegin : begin? q '$' = some ([], .marked []) := by
    obtain rfl | rfl := hq <;> rfl
  have hrun := Pending.scan_run (q := q) (f := .marked) (P := Char.isDigit)
    (fun cs c hc => by simp [Pending.extend?, hc]) [] s.toList h.all
  rw [lex, Pending.scan, step_nothing, hbegin]
  simp [hrun, Pending.flush, h.ne_nil]

/-- The mark of a parameter is read as that. -/
theorem lex_placeholder (d : Dialect) (n : Nat) :
    lex q (d.placeholder n).toList = some [.mark (d.mark n)] := by
  have hnext : lex q "?".toList = some [.mark .next] := by
    rw [show "?".toList = ['?'] by decide]
    exact lex_sign hq rfl (lex_nil q)
  cases d with
  | mysql => exact hnext
  | sqlite => exact hnext
  | postgres =>
    have htext : (Dialect.postgres.placeholder n).toList = '$' :: (toString n).toList := by
      rw [Dialect.placeholder, String.toList_append]
      rfl
    rw [htext]
    exact lex_numbered hq (digits_toString n)

end

end GraphLoad.Sql
