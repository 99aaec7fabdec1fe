/-
The tokens of conditions. Where the expressions of a condition are read as some tokens, its text is read
as these between the words, signs and marks that the condition consists of, whichever quotes enclose
names.
-/
import GraphLoad.Proofs.Sql.Scope
import GraphLoad.Proofs.Sql.Token
import GraphLoad.Proofs.Sql.Writing
import Mathlib.Data.List.Forall2

namespace GraphLoad.Sql

variable {q : Char}

/-! ## Texts in a row -/

/-- A separator that is read as some tokens wherever it stands between two texts. -/
def Separates (q : Char) (sep : String) (us : List (Token Mark)) : Prop :=
  ∀ {xs ys ts ts'}, lex q xs = some ts → lex q ys = some ts' →
    lex q (xs ++ sep.toList ++ ys) = some (ts ++ us ++ ts')

/-- Texts with a separator between them are read one after the other. -/
theorem lex_intercalate {sep : String} {us : List (Token Mark)} (hsep : Separates q sep us)
    {texts : List String} {tokens : List (List (Token Mark))}
    (h : List.Forall₂ (fun s ts => lex q s.toList = some ts) texts tokens) :
    lex q (String.intercalate sep texts).toList = some (us.intercalate tokens) := by
  induction h with
  | nil => simp [lex_nil]
  | cons hfirst hrest ih =>
    cases hrest with
    | nil => simpa using hfirst
    | cons _ _ =>
      rw [String.intercalate_cons_cons, List.intercalate_cons_cons, String.toList_append,
        String.toList_append]
      exact hsep hfirst ih

/-- The same where the texts are those of the members of a list. -/
theorem lex_intercalate_map {α : Type} {sep : String} {us : List (Token Mark)}
    (hsep : Separates q sep us) {text : α → String} {tokens : α → List (Token Mark)} {xs : List α}
    (h : ∀ x ∈ xs, lex q (text x).toList = some (tokens x)) :
    lex q (String.intercalate sep (xs.map text)).toList = some (us.intercalate (xs.map tokens)) := by
  refine lex_intercalate hsep ?_
  rw [List.forall₂_map_left_iff, List.forall₂_map_right_iff, List.forall₂_same]
  exact h

section
variable (hq : IsQuote q)
include hq

/-- A word between two texts. -/
theorem separates_word (word : String) (hword : OrderTerm.isIdentifier word = true) :
    Separates q (" " ++ word ++ " ") [.word word] := by
  intro xs ys ts ts' hx hy
  have hchars : xs ++ (" " ++ word ++ " ").toList ++ ys = xs ++ ' ' :: (word.toList ++ ' ' :: ys) := by
    simp
  rw [hchars, List.append_assoc]
  exact lex_spaced hq hx (lex_spaced hq (lex_word hq hword) hy)

/-- A comma between two texts. -/
theorem separates_comma : Separates q ", " [.comma] := by
  intro xs ys ts ts' hx hy
  have hchars : xs ++ ", ".toList ++ ys = xs ++ ',' :: ' ' :: ys := by simp
  rw [hchars, List.append_assoc]
  exact lex_append (stops_of hq (by simp)) hx (lex_sign hq rfl (lex_blank hq hy))

end

/-! ## Tokens -/

/-- The tokens of a comparison. -/
def Comparison.tokens {μ : Type} : Comparison → List (Token μ)
  | like => [.word "LIKE"]
  | notLike => [.word "NOT", .word "LIKE"]
  | c => [.operator c]

namespace Condition

/-- The marks of parameters, the first of which has the number `bound + 1`. -/
def marks (d : Dialect) (bound : Nat) (values : List Value) : List (List (Token Mark)) :=
  values.mapIdx fun i _ => [.mark (d.mark (bound + i + 1))]

theorem marks_cons (d : Dialect) (bound : Nat) (v : Value) (values : List Value) :
    marks d bound (v :: values) = [.mark (d.mark (bound + 1))] :: marks d (bound + 1) values :=
  numbered_cons (fun n => [Token.mark (d.mark n)]) bound v values

section
variable (f : Expr → List (Token Mark)) (d : Dialect)

/-- The tokens of a comparison of a column with the next parameter. -/
def comparisonTokens (bound : Nat) (x : Expr) (c : Comparison) : List (Token Mark) :=
  f x ++ (c.tokens ++ [.mark (d.mark (bound + 1))])

/-- The tokens of a membership test. -/
def membershipTokens (bound : Nat) (x : Expr) (words : List (Token Mark)) (values : List Value) :
    List (Token Mark) :=
  f x ++ (words ++ .opening :: ([.comma].intercalate (marks d bound values) ++ [.closing]))

mutual

/-- The tokens of a condition when `bound` parameters precede it. Those of its columns are given. -/
def tokens (bound : Nat) : Condition → List (Token Mark)
  | .always => [.word "TRUE"]
  | .compare .equal x v =>
    if v.isNull then f x ++ [.word "IS", .word "NULL"] else comparisonTokens f d bound x .equal
  | .compare .notEqual x v =>
    if v.isNull then f x ++ [.word "IS", .word "NOT", .word "NULL"]
    else comparisonTokens f d bound x .notEqual
  | .compare c x _ => comparisonTokens f d bound x c
  | .isIn x values =>
    if values.isEmpty then [.word "FALSE"] else membershipTokens f d bound x [.word "IN"] values
  | .notIn x values =>
    if values.isEmpty then [.word "TRUE"]
    else membershipTokens f d bound x [.word "NOT", .word "IN"] values
  | .isNull x => f x ++ [.word "IS", .word "NULL"]
  | .isNotNull x => f x ++ [.word "IS", .word "NOT", .word "NULL"]
  | .all cs =>
    if cs.isEmpty then [.word "TRUE"]
    else .opening :: ([.word "AND"].intercalate (tokensAll bound cs) ++ [.closing])
  | .any cs =>
    if cs.isEmpty then [.word "FALSE"]
    else .opening :: ([.word "OR"].intercalate (tokensAll bound cs) ++ [.closing])
  | .negation c => .word "NOT" :: .opening :: (tokens bound c ++ [.closing])

/-- The tokens of a list of conditions, each preceded by the parameters of those before it. -/
def tokensAll (bound : Nat) : List Condition → List (List (Token Mark))
  | [] => []
  | c :: cs => tokens bound c :: tokensAll (bound + (params c).length) cs

end

end

/-! ## Reading the text of a condition -/

variable {f : Expr → List (Token Mark)} {d : Dialect} {x : Expr}

theorem lex_textAll {cs : List Condition}
    (h : ∀ c ∈ cs, ∀ bound, lex q (c.text d bound).toList = some (c.tokens f d bound)) (bound : Nat) :
    List.Forall₂ (fun s ts => lex q s.toList = some ts) (textAll d bound cs)
      (tokensAll f d bound cs) := by
  induction cs generalizing bound with
  | nil => exact .nil
  | cons c cs ih =>
    exact .cons (h c (List.mem_cons_self ..) bound)
      (ih (fun c hc => h c (List.mem_cons_of_mem _ hc)) _)

section
variable (hq : IsQuote q)
include hq

theorem lex_marks (d : Dialect) (bound : Nat) (values : List Value) :
    List.Forall₂ (fun s ts => lex q s.toList = some ts) (placeholders d bound values)
      (marks d bound values) := by
  induction values generalizing bound with
  | nil => exact .nil
  | cons v values ih =>
    rw [placeholders_cons, marks_cons]
    exact .cons (lex_placeholder hq d _) (ih _)

/-- A column before a text that tests it. -/
theorem lex_test {ts : List (Token Mark)} {s : String} (hx : lex q x.text.toList = some (f x))
    (hs : lex q s.toList = some ts) : lex q (x.text ++ " " ++ s).toList = some (f x ++ ts) := by
  have hchars : (x.text ++ " " ++ s).toList = x.text.toList ++ ' ' :: s.toList := by simp
  rw [hchars]
  exact lex_spaced hq hx hs

/-- A text in parentheses. -/
theorem lex_enclosed {ts : List (Token Mark)} {s : String} (hs : lex q s.toList = some ts) :
    lex q ("(" ++ s ++ ")").toList = some (.opening :: (ts ++ [.closing])) := by
  have hchars : ("(" ++ s ++ ")").toList = '(' :: (s.toList ++ [')']) := by simp
  rw [hchars]
  exact lex_sign hq rfl (lex_closed hq hs)

theorem lex_isNull (hx : lex q x.text.toList = some (f x)) :
    lex q (x.text ++ " IS NULL").toList = some (f x ++ [.word "IS", .word "NULL"]) := by
  have hwords : lex q "IS NULL".toList = some [.word "IS", .word "NULL"] := by
    obtain rfl | rfl := hq <;> decide
  have htext := lex_test hq hx hwords
  rwa [String.append_assoc] at htext

theorem lex_isNotNull (hx : lex q x.text.toList = some (f x)) :
    lex q (x.text ++ " IS NOT NULL").toList =
      some (f x ++ [.word "IS", .word "NOT", .word "NULL"]) := by
  have hwords : lex q "IS NOT NULL".toList =
      some [.word "IS", .word "NOT", .word "NULL"] := by
    obtain rfl | rfl := hq <;> decide
  have htext := lex_test hq hx hwords
  rwa [String.append_assoc] at htext

theorem lex_comparison (hx : lex q x.text.toList = some (f x)) (bound : Nat) (c : Comparison) :
    lex q (comparisonText d bound x c).toList = some (comparisonTokens f d bound x c) := by
  have hword : lex q c.text.toList = some c.tokens := by
    obtain rfl | rfl := hq <;> cases c <;> decide
  have hchars : (c.text ++ " " ++ d.placeholder (bound + 1)).toList =
      c.text.toList ++ ' ' :: (d.placeholder (bound + 1)).toList := by simp
  have hrest : lex q (c.text ++ " " ++ d.placeholder (bound + 1)).toList =
      some (c.tokens ++ [.mark (d.mark (bound + 1))]) := by
    rw [hchars]
    exact lex_spaced hq hword (lex_placeholder hq d _)
  have htext := lex_test hq hx hrest
  rwa [← String.append_assoc, ← String.append_assoc] at htext

theorem lex_membership (hx : lex q x.text.toList = some (f x)) (bound : Nat) {word : String}
    {words : List (Token Mark)} (hword : lex q word.toList = some words) (values : List Value) :
    lex q (membershipText d bound x word values).toList =
      some (membershipTokens f d bound x words values) := by
  have hlist := lex_enclosed hq (lex_intercalate (separates_comma hq) (lex_marks hq d bound values))
  have hchars (s : String) : (word ++ " (" ++ s ++ ")").toList =
      word.toList ++ ' ' :: ("(" ++ s ++ ")").toList := by simp
  have hrest : lex q (word ++ " (" ++
      String.intercalate ", " (placeholders d bound values) ++ ")").toList =
      some (words ++ .opening :: ([.comma].intercalate (marks d bound values) ++ [.closing])) := by
    rw [hchars]
    exact lex_spaced hq hword hlist
  have htext := lex_test hq hx hrest
  simpa only [membershipText, membershipTokens, ← String.append_assoc] using htext

/-- The text of a condition is read as its tokens, if its columns are read as theirs. -/
theorem lex_text (d : Dialect) (c : Condition)
    (h : ∀ x ∈ c.exprs, lex q x.text.toList = some (f x)) (bound : Nat) :
    lex q (c.text d bound).toList = some (c.tokens f d bound) := by
  have htrue : lex q "TRUE".toList = some [.word "TRUE"] := lex_word hq (by decide)
  have hfalse : lex q "FALSE".toList = some [.word "FALSE"] := lex_word hq (by decide)
  induction c using Condition.induct generalizing bound with
  | always => exact htrue
  | compare c x v =>
    have hx := h x (List.mem_singleton_self x)
    cases c
    case equal =>
      by_cases hnull : v.isNull = true
      · simpa [text, tokens, hnull] using lex_isNull hq hx
      · simpa [text, tokens, hnull] using lex_comparison hq hx bound .equal
    case notEqual =>
      by_cases hnull : v.isNull = true
      · simpa [text, tokens, hnull] using lex_isNotNull hq hx
      · simpa [text, tokens, hnull] using lex_comparison hq hx bound .notEqual
    all_goals exact lex_comparison hq hx bound _
  | isIn x vs =>
    cases vs with
    | nil => exact hfalse
    | cons v vs =>
      exact lex_membership hq (h x (List.mem_singleton_self x)) bound (lex_word hq (by decide)) (v :: vs)
  | notIn x vs =>
    cases vs with
    | nil => exact htrue
    | cons v vs =>
      have hwords : lex q "NOT IN".toList = some [.word "NOT", .word "IN"] := by
        obtain rfl | rfl := hq <;> decide
      exact lex_membership hq (h x (List.mem_singleton_self x)) bound hwords (v :: vs)
  | isNull x => exact lex_isNull hq (h x (List.mem_singleton_self x))
  | isNotNull x => exact lex_isNotNull hq (h x (List.mem_singleton_self x))
  | all cs ih =>
    have hall := lex_textAll (fun c hc => ih c hc fun x hx => h x (mem_exprsAll hc hx)) bound
    cases cs with
    | nil => exact htrue
    | cons c cs =>
      exact lex_enclosed hq (lex_intercalate (separates_word hq "AND" (by decide)) hall)
  | any cs ih =>
    have hall := lex_textAll (fun c hc => ih c hc fun x hx => h x (mem_exprsAll hc hx)) bound
    cases cs with
    | nil => exact hfalse
    | cons c cs =>
      exact lex_enclosed hq (lex_intercalate (separates_word hq "OR" (by decide)) hall)
  | negation c ih =>
    have hchars (s : String) : ("NOT (" ++ s ++ ")").toList =
        "NOT".toList ++ ' ' :: ("(" ++ s ++ ")").toList := by simp
    rw [text, hchars]
    exact lex_spaced hq (lex_word hq (by decide)) (lex_enclosed hq (ih h bound))

end

end Condition

end GraphLoad.Sql
