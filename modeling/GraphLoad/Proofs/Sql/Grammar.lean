/-
Conditions as they are read from their text. Parameters take the places of their marks in order; then
the tokens are parsed, `NOT` before `AND` before `OR`, down to tests of a column and the two constants;
and what has been parsed is true, false or unknown by the rules of three-valued logic. Shown here: which
runs of tokens are read as one operand, whatever follows them.
-/
import GraphLoad.Proofs.Sql.Denotation
import GraphLoad.Proofs.Sql.Token

namespace GraphLoad.Sql

/-! ## Parameters -/

/-- A token that is not a parameter, whatever parameters are. -/
def Token.plain? {μ ν : Type} : Token μ → Option (Token ν)
  | .word text => some (.word text)
  | .name text => some (.name text)
  | .number digits => some (.number digits)
  | .mark _ => none
  | .operator c => some (.operator c)
  | .opening => some .opening
  | .closing => some .closing
  | .comma => some .comma
  | .dot => some .dot
  | .star => some .star
  | .minus => some .minus

/-- Puts values in the places of the parameters, which have to be marked by the numbers from `bound + 1`
on where the dialect numbers them. Every parameter takes a value, and no value is left over. -/
def supply (d : Dialect) : Nat → List (Token Mark) → List Value → Option (List (Token Value))
  | _, [], [] => some []
  | _, [], _ :: _ => none
  | bound, .mark m :: ts, v :: values =>
    if m = d.mark (bound + 1) then (supply d (bound + 1) ts values).map (.mark v :: ·) else none
  | bound, t :: ts, values => t.plain?.bind fun t => (supply d bound ts values).map (t :: ·)

section
variable {d : Dialect} {bound : Nat} {ts us : List (Token Mark)} {vs ws : List Value}
  {bs cs : List (Token Value)}

theorem supply_nil (d : Dialect) (bound : Nat) : supply d bound [] [] = some [] := rfl

theorem supply_plain {t : Token Mark} {b : Token Value} (ht : t.plain? = some b)
    (h : supply d bound ts vs = some bs) : supply d bound (t :: ts) vs = some (b :: bs) := by
  cases t with
  | mark m => cases ht
  | _ => simp [supply, ht, h]

theorem supply_mark (v : Value) (h : supply d (bound + 1) ts vs = some bs) :
    supply d bound (.mark (d.mark (bound + 1)) :: ts) (v :: vs) = some (.mark v :: bs) := by
  simp [supply, h]

/-- Parameters behind others are numbered on. -/
theorem supply_append (h : supply d bound ts vs = some bs)
    (h' : supply d (bound + vs.length) us ws = some cs) :
    supply d bound (ts ++ us) (vs ++ ws) = some (bs ++ cs) := by
  induction ts generalizing bound vs bs with
  | nil =>
    cases vs with
    | nil =>
      cases h
      exact h'
    | cons v vs => cases h
  | cons t ts ih =>
    by_cases hmark : ∃ m, t = .mark m
    · obtain ⟨m, rfl⟩ := hmark
      cases vs with
      | nil => cases h
      | cons v vs =>
        rw [supply] at h
        split at h
        · rename_i hm
          subst hm
          obtain ⟨bs, hbs, rfl⟩ := Option.map_eq_some_iff.1 h
          have hnext : bound + 1 + vs.length = bound + (v :: vs).length := by
            simp only [List.length_cons]
            omega
          exact supply_mark v (ih hbs (hnext ▸ h'))
        · cases h
    · have hplain : ∃ b : Token Value, t.plain? = some b := by
        cases t with
        | mark m => exact absurd ⟨m, rfl⟩ hmark
        | _ => exact ⟨_, rfl⟩
      obtain ⟨b, hb⟩ := hplain
      have hsplit : supply d bound (t :: ts) vs = (supply d bound ts vs).map (b :: ·) := by
        cases t with
        | mark m => cases hb
        | _ => simp [supply, hb]
      rw [hsplit] at h
      obtain ⟨bs, hbs, rfl⟩ := Option.map_eq_some_iff.1 h
      exact supply_plain hb (ih hbs h')

end

/-! ## Phrases -/

/-- A condition as it is read. -/
inductive Phrase
  | constant (b : Bool)
  | compare (c : Comparison) (aliasName name : String) (value : Value)
  | isIn (aliasName name : String) (values : List Value)
  | notIn (aliasName name : String) (values : List Value)
  | isNull (aliasName name : String)
  | isNotNull (aliasName name : String)
  | both (p p' : Phrase)
  | either (p p' : Phrase)
  | negation (p : Phrase)

/-- What the columns of every alias hold. -/
abbrev Assignment := String → String → Value

/-- The truth of a phrase, unknown where it depends on a comparison with null. -/
def Phrase.truth (db : Database) (σ : Assignment) : Phrase → Option Bool
  | .constant b => some b
  | .compare .equal a n v => equality (σ a n) v
  | .compare .notEqual a n v => (equality (σ a n) v).map (!·)
  | .compare c a n v => if (σ a n).isNull || v.isNull then none else some (db.compare c (σ a n) v)
  | .isIn a n vs => among (σ a n) vs
  | .notIn a n vs => (among (σ a n) vs).map (!·)
  | .isNull a n => some (σ a n).isNull
  | .isNotNull a n => some (!(σ a n).isNull)
  | .both p p' => Sql.both (p.truth db σ) (p'.truth db σ)
  | .either p p' => Sql.either (p.truth db σ) (p'.truth db σ)
  | .negation p => (p.truth db σ).map (!·)

/-! ## Parsing -/

/-- What is read of some tokens, and what they are followed by. -/
abbrev Parsed (α : Type) := Option (α × List (Token Value))

/-- The further members of a list, up to its end. -/
def members : List (Token Value) → Parsed (List Value)
  | .closing :: ts => some ([], ts)
  | .comma :: .mark v :: ts => (members ts).map fun r => (v :: r.1, r.2)
  | _ => none

/-- A test of a column, behind the column. -/
def test (a n : String) : List (Token Value) → Parsed Phrase
  | .operator c :: .mark v :: ts => some (.compare c a n v, ts)
  | .word "LIKE" :: .mark v :: ts => some (.compare .like a n v, ts)
  | .word "NOT" :: .word "LIKE" :: .mark v :: ts => some (.compare .notLike a n v, ts)
  | .word "IN" :: .opening :: .mark v :: ts => (members ts).map fun r => (.isIn a n (v :: r.1), r.2)
  | .word "NOT" :: .word "IN" :: .opening :: .mark v :: ts =>
    (members ts).map fun r => (.notIn a n (v :: r.1), r.2)
  | .word "IS" :: .word "NULL" :: ts => some (.isNull a n, ts)
  | .word "IS" :: .word "NOT" :: .word "NULL" :: ts => some (.isNotNull a n, ts)
  | _ => none

/-- Which operators are looked for: none, `AND`, or `OR` of what has `AND`. -/
inductive Level
  | factor
  | conjunction
  | disjunction

/-- An operand: a test, a constant, the negation of one, or anything in parentheses. A word before a dot
is an alias, whatever it says. -/
def operand (parse : Level → List (Token Value) → Parsed Phrase) : List (Token Value) → Parsed Phrase
  | .word a :: .dot :: .word n :: ts => test a n ts
  | .word a :: .dot :: .name n :: ts => test a n ts
  | .word "NOT" :: ts => (parse .factor ts).map fun r => (.negation r.1, r.2)
  | .word "TRUE" :: ts => some (.constant true, ts)
  | .word "FALSE" :: ts => some (.constant false, ts)
  | .opening :: ts =>
    match parse .disjunction ts with
    | some (p, .closing :: rest) => some (p, rest)
    | _ => none
  | _ => none

/-- Operands with a word between them. -/
def chain (word : String) (join : Phrase → Phrase → Phrase)
    (first more : List (Token Value) → Parsed Phrase) (ts : List (Token Value)) : Parsed Phrase :=
  match first ts with
  | some (p, .word w :: rest) =>
    if w = word then (more rest).map fun r => (join p r.1, r.2) else some (p, .word w :: rest)
  | r => r

/-- Reads a phrase of a level. -/
def parseWith : Nat → Level → List (Token Value) → Parsed Phrase
  | 0, _, _ => none
  | fuel + 1, .factor, ts => operand (parseWith fuel) ts
  | fuel + 1, .conjunction, ts =>
    chain "AND" .both (parseWith fuel .factor) (parseWith fuel .conjunction) ts
  | fuel + 1, .disjunction, ts =>
    chain "OR" .either (parseWith fuel .conjunction) (parseWith fuel .disjunction) ts

/-- The phrase that some tokens are, if they are one. A level takes one step down, and there are three. -/
def parse (ts : List (Token Value)) : Option Phrase :=
  match parseWith (3 * ts.length) .disjunction ts with
  | some (p, []) => some p
  | _ => none

/-! ## Runs of tokens that are read as one -/

/-- What may follow a phrase of a level without belonging to it. -/
def Level.Ends (rest : List (Token Value)) : Level → Prop
  | factor => rest.head? ≠ some .dot
  | conjunction => rest.head? ≠ some .dot ∧ rest.head? ≠ some (.word "AND")
  | disjunction => rest.head? ≠ some .dot ∧ rest.head? ≠ some (.word "AND") ∧
      rest.head? ≠ some (.word "OR")

/-- How far the steps of a level fall short of three for each token. -/
def Level.slack : Level → Nat
  | factor => 2
  | conjunction => 1
  | disjunction => 0

/-- Tokens that are read as a phrase of a level, whatever follows it. -/
def ReadsAs (l : Level) (ts : List (Token Value)) (p : Phrase) : Prop :=
  ∀ fuel rest, 3 * ts.length ≤ fuel + l.slack → l.Ends rest →
    parseWith fuel l (ts ++ rest) = some (p, rest)

section
variable {ts us : List (Token Value)} {p p' : Phrase} {a n : String}

/-- There are tokens in what is read. -/
theorem ReadsAs.ne_nil {l : Level} (h : ReadsAs l ts p) : ts ≠ [] := by
  rintro rfl
  have hends : l.Ends [] := by cases l <;> simp [Level.Ends]
  cases h 0 [] (Nat.zero_le _) hends

theorem ReadsAs.length_pos {l : Level} (h : ReadsAs l ts p) : 0 < ts.length :=
  List.length_pos_iff.2 h.ne_nil

/-- Tokens take a step at least. -/
theorem readsAs_of_step {l : Level} (hpos : 0 < ts.length)
    (h : ∀ fuel rest, 3 * ts.length ≤ fuel + 1 + l.slack → l.Ends rest →
      parseWith (fuel + 1) l (ts ++ rest) = some (p, rest)) : ReadsAs l ts p := by
  intro fuel rest hfuel hrest
  cases fuel with
  | zero =>
    have hslack : l.slack ≤ 2 := by cases l <;> simp [Level.slack]
    omega
  | succ fuel => exact h fuel rest hfuel hrest

/-- A test of a column, which is named bare or in quotes. -/
theorem reads_test {column : List (Token Value)}
    (hcolumn : column = [.word a, .dot, .word n] ∨ column = [.word a, .dot, .name n])
    (h : ∀ rest, test a n (ts ++ rest) = some (p, rest)) : ReadsAs .factor (column ++ ts) p := by
  obtain rfl | rfl := hcolumn
  · exact readsAs_of_step (Nat.succ_pos _) fun _ rest _ _ => h rest
  · exact readsAs_of_step (Nat.succ_pos _) fun _ rest _ _ => h rest

theorem reads_constant (b : Bool) :
    ReadsAs .factor [.word (if b then "TRUE" else "FALSE")] (.constant b) := by
  refine readsAs_of_step Nat.one_pos fun fuel rest _ hrest => ?_
  have hdot : ∀ us, rest ≠ .dot :: us := by
    rintro us rfl
    exact hrest rfl
  show operand _ (.word (if b then "TRUE" else "FALSE") :: rest) = _
  cases rest with
  | nil => cases b <;> rfl
  | cons t rest => cases b <;> cases t <;> first | rfl | exact absurd rfl (hdot rest)

/-- Anything in parentheses. -/
theorem ReadsAs.group (h : ReadsAs .disjunction ts p) :
    ReadsAs .factor (.opening :: (ts ++ [.closing])) p := by
  refine readsAs_of_step (Nat.succ_pos _) fun fuel rest hfuel _ => ?_
  simp only [List.length_cons, List.length_append, List.length_nil, Level.slack] at hfuel
  have hinner := h fuel (.closing :: rest) (by simp [Level.slack]; omega) (by simp [Level.Ends])
  show operand _ (.opening :: (ts ++ [.closing]) ++ rest) = _
  simp [operand, hinner]

/-- The negation of what is in parentheses. -/
theorem ReadsAs.negation (h : ReadsAs .factor (.opening :: ts) p) :
    ReadsAs .factor (.word "NOT" :: .opening :: ts) (.negation p) := by
  refine readsAs_of_step (Nat.succ_pos _) fun fuel rest hfuel hrest => ?_
  simp only [List.length_cons, Level.slack] at hfuel
  have hinner := h fuel rest (by simp [Level.slack]; omega) hrest
  show operand _ (.word "NOT" :: .opening :: (ts ++ rest)) = _
  simp only [operand]
  rw [← List.cons_append, hinner]
  rfl

/-! ## Operands in a chain -/

section
variable {word : String} {join : Phrase → Phrase → Phrase}
  {first more : List (Token Value) → Parsed Phrase} {rest : List (Token Value)}

theorem chain_alone (h : first ts = some (p, rest)) (hrest : rest.head? ≠ some (.word word)) :
    chain word join first more ts = some (p, rest) := by
  unfold chain
  rw [h]
  split
  · rename_i heq
    cases heq
    rw [if_neg]
    rintro rfl
    exact hrest rfl
  · rfl

theorem chain_joined (h : first ts = some (p, .word word :: us)) (h' : more us = some (p', rest)) :
    chain word join first more ts = some (join p p', rest) := by
  simp [chain, h, h']

end

/-- What is read as one operand is a conjunction of its own. -/
theorem ReadsAs.conjunction (h : ReadsAs .factor ts p) : ReadsAs .conjunction ts p := by
  refine readsAs_of_step h.length_pos fun fuel rest hfuel hrest => ?_
  simp only [Level.slack] at hfuel
  exact chain_alone (h fuel rest (by simp only [Level.slack]; omega) hrest.1) hrest.2

/-- And a conjunction is a disjunction of its own. -/
theorem ReadsAs.disjunction (h : ReadsAs .conjunction ts p) : ReadsAs .disjunction ts p := by
  refine readsAs_of_step h.length_pos fun fuel rest hfuel hrest => ?_
  simp only [Level.slack] at hfuel
  exact chain_alone (h fuel rest (by simp only [Level.slack]; omega) ⟨hrest.1, hrest.2.1⟩) hrest.2.2

/-- An operand before a conjunction. -/
theorem ReadsAs.and (h : ReadsAs .factor ts p) (h' : ReadsAs .conjunction us p') :
    ReadsAs .conjunction (ts ++ .word "AND" :: us) (.both p p') := by
  refine readsAs_of_step (List.length_pos_iff.2 (by simp)) fun fuel rest hfuel hrest => ?_
  simp only [List.length_append, List.length_cons, Level.slack] at hfuel
  rw [List.append_assoc]
  exact chain_joined (h fuel _ (by simp only [Level.slack]; omega) (by simp [Level.Ends]))
    (h' fuel rest (by simp only [Level.slack]; omega) hrest)

/-- A conjunction before a disjunction. -/
theorem ReadsAs.or (h : ReadsAs .conjunction ts p) (h' : ReadsAs .disjunction us p') :
    ReadsAs .disjunction (ts ++ .word "OR" :: us) (.either p p') := by
  refine readsAs_of_step (List.length_pos_iff.2 (by simp)) fun fuel rest hfuel hrest => ?_
  simp only [List.length_append, List.length_cons, Level.slack] at hfuel
  rw [List.append_assoc]
  exact chain_joined (h fuel _ (by simp only [Level.slack]; omega) (by simp [Level.Ends]))
    (h' fuel rest (by simp only [Level.slack]; omega) hrest)

/-- A whole text that is read as a disjunction is that phrase. -/
theorem ReadsAs.parse (h : ReadsAs .disjunction ts p) : parse ts = some p := by
  have hall := h (3 * ts.length) [] (by simp [Level.slack]) (by simp [Level.Ends])
  rw [List.append_nil] at hall
  rw [Sql.parse, hall]

/-! ## Tests of a column -/

/-- Members of a list behind others. -/
theorem members_marks (vs : List Value) (rest : List (Token Value)) :
    members (vs.flatMap (fun v => [.comma, .mark v]) ++ .closing :: rest) = some (vs, rest) := by
  induction vs with
  | nil => rfl
  | cons v vs ih =>
    show (members (vs.flatMap (fun v => [.comma, .mark v]) ++ .closing :: rest)).map _ = _
    rw [ih]
    rfl

end

end GraphLoad.Sql
