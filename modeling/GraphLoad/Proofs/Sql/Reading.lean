/-
The text of a condition means the condition. Whatever has been written and bound before, what a condition
appends is read, its parameters in the places of their marks, as a phrase that is true, false or unknown
as the condition is, wherever its columns hold the same. The columns have to be named by a bare alias and
a name that is bare or in quotes.
-/
import GraphLoad.Proofs.Sql.Grammar
import GraphLoad.Proofs.Sql.Lexing

namespace GraphLoad.Sql

/-! ## Columns -/

/-- An expression that names a column of an alias: the alias bare, the column bare or in quotes. -/
structure Expr.Names (x : Expr) (a n : String) : Prop where
  bare : OrderTerm.isIdentifier a = true
  text : (OrderTerm.isIdentifier n = true ∧ x.text = a ++ "." ++ n) ∨ x.text = a ++ "." ++ quoteName n

/-- Whether the columns that some expressions name hold what the expressions come to. -/
def Assignment.Holds (σ : Assignment) (db : Database) (env : Env) (xs : List Expr) : Prop :=
  ∀ x ∈ xs, ∀ a n, x.Names a n → x.eval db env = σ a n

variable {d : Dialect} {bound : Nat} {ts us : List (Token Mark)} {vs vs' : List Value} {p p' : Phrase}
  {x : Expr} {a n : String}

/-- The tokens of an alias and a column of it. -/
def IsColumn (ts : List (Token Mark)) (a n : String) : Prop :=
  ts = [.word a, .dot, .word n] ∨ ts = [.word a, .dot, .name n]

/-- The tokens that the text of an expression is read as. -/
def Expr.read (x : Expr) : List (Token Mark) := (lex '\x22' x.text.toList).getD []

theorem Expr.Names.read (h : x.Names a n) :
    lex '\x22' x.text.toList = some x.read ∧ IsColumn x.read a n := by
  have hcolumn : ∃ ts, lex '\x22' x.text.toList = some ts ∧ IsColumn ts a n := by
    obtain ⟨hbare, ⟨hn, htext⟩ | htext⟩ := h
    · refine ⟨_, ?_, .inl rfl⟩
      rw [htext, String.toList_append, String.toList_append, List.append_assoc]
      exact lex_append (stops_of .double (.inr (.inl rfl))) (lex_word .double hbare)
        (lex_sign .double rfl (lex_word .double hn))
    · refine ⟨_, ?_, .inr rfl⟩
      rw [htext, String.toList_append, String.toList_append, List.append_assoc]
      exact lex_append (stops_of .double (.inr (.inl rfl))) (lex_word .double hbare)
        (lex_sign .double rfl (lex_enclose .double n))
  obtain ⟨ts, hlex, hcolumn⟩ := hcolumn
  have hread : x.read = ts := by rw [Expr.read, hlex, Option.getD_some]
  rw [hread]
  exact ⟨hlex, hcolumn⟩

/-- A column of a bare alias names itself, unless it is not an identifier and yet is taken for one. -/
theorem Expr.names_column (ha : OrderTerm.isIdentifier a = true)
    (hn : needsQuotes n = true ∨ OrderTerm.isIdentifier n = true) : (column a n).Names a n := by
  refine ⟨ha, ?_⟩
  by_cases hquotes : needsQuotes n = true
  · exact .inr (by simp [Expr.text, nameText, hquotes])
  · exact .inl ⟨hn.resolve_left hquotes, by simp [Expr.text, nameText, hquotes]⟩

/-! ## Legible tokens -/

/-- Tokens that are read, with some values as their parameters, as a phrase of a level. Parameters up to
`bound` have been taken. -/
def Legible (d : Dialect) (bound : Nat) (l : Level) (ts : List (Token Mark)) (values : List Value)
    (p : Phrase) : Prop :=
  ∃ bs, supply d bound ts values = some bs ∧ ReadsAs l bs p

theorem Legible.conjunction (h : Legible d bound .factor ts vs p) :
    Legible d bound .conjunction ts vs p := by
  obtain ⟨bs, hsupply, hreads⟩ := h
  exact ⟨bs, hsupply, hreads.conjunction⟩

theorem Legible.disjunction (h : Legible d bound .conjunction ts vs p) :
    Legible d bound .disjunction ts vs p := by
  obtain ⟨bs, hsupply, hreads⟩ := h
  exact ⟨bs, hsupply, hreads.disjunction⟩

theorem Legible.and (h : Legible d bound .factor ts vs p)
    (h' : Legible d (bound + vs.length) .conjunction us vs' p') :
    Legible d bound .conjunction (ts ++ .word "AND" :: us) (vs ++ vs') (.both p p') := by
  obtain ⟨bs, hsupply, hreads⟩ := h
  obtain ⟨cs, hsupply', hreads'⟩ := h'
  exact ⟨_, supply_append hsupply (supply_plain rfl hsupply'), hreads.and hreads'⟩

theorem Legible.or (h : Legible d bound .conjunction ts vs p)
    (h' : Legible d (bound + vs.length) .disjunction us vs' p') :
    Legible d bound .disjunction (ts ++ .word "OR" :: us) (vs ++ vs') (.either p p') := by
  obtain ⟨bs, hsupply, hreads⟩ := h
  obtain ⟨cs, hsupply', hreads'⟩ := h'
  exact ⟨_, supply_append hsupply (supply_plain rfl hsupply'), hreads.or hreads'⟩

/-- Values in parentheses stay the same. -/
theorem supply_enclosed {bs : List (Token Value)} (h : supply d bound ts vs = some bs) :
    supply d bound (.opening :: (ts ++ [.closing])) vs = some (.opening :: (bs ++ [.closing])) := by
  have hclosed : supply d bound (ts ++ [.closing]) (vs ++ []) = some (bs ++ [.closing]) :=
    supply_append h (supply_plain rfl (supply_nil d _))
  rw [List.append_nil] at hclosed
  exact supply_plain rfl hclosed

theorem Legible.group (h : Legible d bound .disjunction ts vs p) :
    Legible d bound .factor (.opening :: (ts ++ [.closing])) vs p := by
  obtain ⟨bs, hsupply, hreads⟩ := h
  exact ⟨_, supply_enclosed hsupply, hreads.group⟩

theorem Legible.negation (h : Legible d bound .disjunction ts vs p) :
    Legible d bound .factor (.word "NOT" :: .opening :: (ts ++ [.closing])) vs (.negation p) := by
  obtain ⟨bs, hsupply, hreads⟩ := h
  exact ⟨_, supply_plain rfl (supply_enclosed hsupply), hreads.group.negation⟩

theorem legible_constant (d : Dialect) (bound : Nat) (b : Bool) :
    Legible d bound .factor [.word (if b then "TRUE" else "FALSE")] [] (.constant b) :=
  ⟨_, supply_plain rfl (supply_nil d bound), reads_constant b⟩

/-! ## Tests -/

/-- A column and a test of it. -/
theorem IsColumn.legible (hx : IsColumn us a n) {bs : List (Token Value)}
    (hsupply : supply d bound ts vs = some bs)
    (htest : ∀ rest, test a n (bs ++ rest) = some (p, rest)) :
    Legible d bound .factor (us ++ ts) vs p := by
  obtain rfl | rfl := hx
  · exact ⟨_, supply_plain rfl (supply_plain rfl (supply_plain rfl hsupply)),
      reads_test (.inl rfl) htest⟩
  · exact ⟨_, supply_plain rfl (supply_plain rfl (supply_plain rfl hsupply)),
      reads_test (.inr rfl) htest⟩

/-- The members of a list, up to its end. -/
theorem supply_marks (d : Dialect) (bound : Nat) (v : Value) (vs : List Value) :
    supply d bound ([.comma].intercalate (Condition.marks d bound (v :: vs)) ++ [.closing]) (v :: vs) =
      some (.mark v :: (vs.flatMap (fun v => [.comma, .mark v]) ++ [.closing])) := by
  induction vs generalizing bound v with
  | nil => exact supply_mark v (supply_plain rfl (supply_nil d _))
  | cons w vs ih =>
    have hrest := ih (bound + 1) w
    rw [Condition.marks_cons] at hrest
    rw [Condition.marks_cons, Condition.marks_cons, List.intercalate_cons_cons]
    exact supply_mark v (supply_plain rfl hrest)

section
variable {f : Expr → List (Token Mark)} (hx : IsColumn (f x) a n)
include hx

theorem IsColumn.isNull :
    Legible d bound .factor (f x ++ [.word "IS", .word "NULL"]) [] (.isNull a n) := by
  have hsupply : supply d bound [.word "IS", .word "NULL"] [] =
      some [.word "IS", .word "NULL"] := rfl
  exact hx.legible hsupply fun _ => rfl

theorem IsColumn.isNotNull :
    Legible d bound .factor (f x ++ [.word "IS", .word "NOT", .word "NULL"]) [] (.isNotNull a n) := by
  have hsupply : supply d bound [.word "IS", .word "NOT", .word "NULL"] [] =
      some [.word "IS", .word "NOT", .word "NULL"] := rfl
  exact hx.legible hsupply fun _ => rfl

theorem IsColumn.comparison (c : Comparison) (v : Value) :
    Legible d bound .factor (Condition.comparisonTokens f d bound x c) [v] (.compare c a n v) := by
  have hmark : supply d bound [.mark (d.mark (bound + 1))] [v] = some [.mark v] :=
    supply_mark v (supply_nil d _)
  have hsupply : supply d bound (c.tokens ++ [.mark (d.mark (bound + 1))]) [v] =
      some (c.tokens ++ [.mark v]) := by
    cases c
    case notLike => exact supply_plain rfl (supply_plain rfl hmark)
    all_goals exact supply_plain rfl hmark
  exact hx.legible hsupply fun rest => by cases c <;> rfl

theorem IsColumn.isIn (v : Value) (vs : List Value) : Legible d bound .factor
    (Condition.membershipTokens f d bound x [.word "IN"] (v :: vs)) (v :: vs)
    (.isIn a n (v :: vs)) := by
  refine hx.legible (supply_plain rfl (supply_plain rfl (supply_marks d bound v vs))) fun rest => ?_
  simp [test, members_marks]

theorem IsColumn.notIn (v : Value) (vs : List Value) : Legible d bound .factor
    (Condition.membershipTokens f d bound x [.word "NOT", .word "IN"] (v :: vs)) (v :: vs)
    (.notIn a n (v :: vs)) := by
  refine hx.legible (supply_plain rfl (supply_plain rfl (supply_plain rfl
    (supply_marks d bound v vs)))) fun rest => ?_
  simp [test, members_marks]

end

/-! ## Conditions -/

theorem Assignment.Holds.append {σ : Assignment} {db : Database} {env : Env} {xs ys : List Expr}
    (h : σ.Holds db env (xs ++ ys)) : σ.Holds db env xs ∧ σ.Holds db env ys :=
  List.forall_mem_append.1 h

namespace Condition

/-- A condition whose text is one operand and means what it does, whatever parameters precede it. -/
def Clear (d : Dialect) (c : Condition) : Prop :=
  ∀ bound, ∃ p, Legible d bound .factor (c.tokens Expr.read d bound) c.params p ∧
    ∀ db env σ, σ.Holds db env c.exprs → p.truth db σ = db.truth env c

/-- An operator between the operands of a level: what it joins is legible on that level, and means what
`truths` makes of the conditions. -/
structure Joins (d : Dialect) (l : Level) (word : String) (join : Phrase → Phrase → Phrase)
    (truths : Database → Env → List Condition → Option Bool) : Prop where
  alone : ∀ {bound ts vs p}, Legible d bound .factor ts vs p → Legible d bound l ts vs p
  joined : ∀ {bound ts us vs vs' p p'}, Legible d bound .factor ts vs p →
    Legible d (bound + vs.length) l us vs' p' →
      Legible d bound l (ts ++ .word word :: us) (vs ++ vs') (join p p')
  truth_alone : ∀ db env c, truths db env [c] = db.truth env c
  truth_joined : ∀ db env σ p p' c cs, p.truth db σ = db.truth env c → p'.truth db σ = truths db env cs →
    (join p p').truth db σ = truths db env (c :: cs)

theorem joins_and (d : Dialect) : Joins d .conjunction "AND" .both Database.truthAll where
  alone := Legible.conjunction
  joined := Legible.and
  truth_alone := fun db env c => by rw [Database.truthAll, Database.truthAll, both_true]
  truth_joined := fun db env σ p p' c cs hp hp' => by rw [Phrase.truth, hp, hp', Database.truthAll]

theorem joins_or (d : Dialect) : Joins d .disjunction "OR" .either Database.truthAny where
  alone := fun h => h.conjunction.disjunction
  joined := fun h h' => h.conjunction.or h'
  truth_alone := fun db env c => by rw [Database.truthAny, Database.truthAny, either_false]
  truth_joined := fun db env σ p p' c cs hp hp' => by rw [Phrase.truth, hp, hp', Database.truthAny]

/-- Clear conditions joined by an operator. -/
theorem Joins.clear {l : Level} {word : String} {join : Phrase → Phrase → Phrase}
    {truths : Database → Env → List Condition → Option Bool} (hjoins : Joins d l word join truths)
    {c : Condition} {cs : List Condition} (hc : c.Clear d) (hcs : ∀ c ∈ cs, c.Clear d) (bound : Nat) :
    ∃ p, Legible d bound l ([.word word].intercalate (tokensAll Expr.read d bound (c :: cs)))
        (paramsAll (c :: cs)) p ∧
      ∀ db env σ, σ.Holds db env (exprsAll (c :: cs)) → p.truth db σ = truths db env (c :: cs) := by
  induction cs generalizing c bound with
  | nil =>
    obtain ⟨p, hlegible, htruth⟩ := hc bound
    refine ⟨p, ?_, fun db env σ hσ => ?_⟩
    · simpa [tokensAll, paramsAll] using hjoins.alone hlegible
    · simp only [exprsAll, List.append_nil] at hσ
      rw [hjoins.truth_alone, htruth db env σ hσ]
  | cons c' cs ih =>
    obtain ⟨p, hlegible, htruth⟩ := hc bound
    obtain ⟨p', hlegible', htruth'⟩ := ih (hcs c' (List.mem_cons_self ..))
      (fun c hc => hcs c (List.mem_cons_of_mem _ hc)) (bound + c.params.length)
    refine ⟨join p p', ?_, fun db env σ hσ => ?_⟩
    · simpa [tokensAll, paramsAll, List.intercalate_cons_cons] using hjoins.joined hlegible hlegible'
    · obtain ⟨hhead, htail⟩ := Assignment.Holds.append hσ
      exact hjoins.truth_joined db env σ p p' c _ (htruth db env σ hhead) (htruth' db env σ htail)

/-- A constant is clear of a condition that is it. -/
theorem clear_constant {c : Condition} {b : Bool}
    (htokens : ∀ bound, c.tokens Expr.read d bound = [.word (if b then "TRUE" else "FALSE")])
    (hparams : c.params = [])
    (htruth : ∀ (db : Database) env, db.truth env c = some b) : c.Clear d := by
  intro bound
  refine ⟨.constant b, ?_, fun db env σ _ => (htruth db env).symm⟩
  rw [htokens, hparams]
  exact legible_constant d bound b

/-- A test of a named column. -/
theorem clear_test {c : Condition} (hexprs : c.exprs = [x]) (hx : x.Names a n)
    (h : ∀ bound, ∃ p, Legible d bound .factor (c.tokens Expr.read d bound) c.params p ∧
      ∀ db env σ, x.eval db env = σ a n → p.truth db σ = db.truth env c) : c.Clear d := by
  intro bound
  obtain ⟨p, hlegible, htruth⟩ := h bound
  refine ⟨p, hlegible, fun db env σ hσ => htruth db env σ (hσ x ?_ a n hx)⟩
  rw [hexprs]
  exact List.mem_singleton_self x

/-- A comparison that binds its value. -/
theorem clear_bound (hx : x.Names a n) (c : Comparison) (v : Value)
    (htokens : ∀ bound, (compare c x v).tokens Expr.read d bound =
      comparisonTokens Expr.read d bound x c)
    (hparams : (compare c x v).params = [v])
    (htruth : ∀ db σ, (Phrase.compare c a n v).truth db σ = db.comparison c (σ a n) v) :
    (compare c x v).Clear d := by
  refine clear_test rfl hx fun bound => ⟨.compare c a n v, ?_, fun db env σ hσ => ?_⟩
  · rw [htokens, hparams]
    exact hx.read.2.comparison c v
  · rw [htruth, Database.truth, hσ]

theorem clear_compare (hx : x.Names a n) (c : Comparison) (v : Value) : (compare c x v).Clear d := by
  cases c
  case equal =>
    by_cases hnull : v.isNull = true
    · refine clear_test rfl hx fun bound => ⟨.isNull a n, ?_, fun db env σ hσ => ?_⟩
      · simpa [tokens, params, hnull] using hx.read.2.isNull
      · simp [Phrase.truth, Database.truth, Database.comparison, hnull, hσ]
    · apply clear_bound hx <;> simp [tokens, params, Phrase.truth, Database.comparison, hnull]
  case notEqual =>
    by_cases hnull : v.isNull = true
    · refine clear_test rfl hx fun bound => ⟨.isNotNull a n, ?_, fun db env σ hσ => ?_⟩
      · simpa [tokens, params, hnull] using hx.read.2.isNotNull
      · simp [Phrase.truth, Database.truth, Database.comparison, hnull, hσ]
    · apply clear_bound hx <;> simp [tokens, params, Phrase.truth, Database.comparison, hnull]
  all_goals exact clear_bound hx _ v (fun _ => rfl) rfl fun _ _ => rfl

theorem clear_isIn (hx : x.Names a n) (vs : List Value) : (isIn x vs).Clear d := by
  cases vs with
  | nil => exact clear_constant (b := false) (fun _ => rfl) rfl fun _ _ => rfl
  | cons v vs =>
    refine clear_test rfl hx fun bound => ⟨.isIn a n (v :: vs), hx.read.2.isIn v vs, fun db env σ hσ => ?_⟩
    rw [Phrase.truth, Database.truth, hσ]

theorem clear_notIn (hx : x.Names a n) (vs : List Value) : (notIn x vs).Clear d := by
  cases vs with
  | nil => exact clear_constant (b := true) (fun _ => rfl) rfl fun _ _ => rfl
  | cons v vs =>
    refine clear_test rfl hx fun bound => ⟨.notIn a n (v :: vs), hx.read.2.notIn v vs, fun db env σ hσ => ?_⟩
    rw [Phrase.truth, Database.truth, hσ]

/-- A condition all of whose columns are named is clear. -/
theorem clear (d : Dialect) (c : Condition) (h : ∀ x ∈ c.exprs, ∃ a n, x.Names a n) : c.Clear d := by
  induction c using Condition.induct with
  | always => exact clear_constant (b := true) (fun _ => rfl) rfl fun _ _ => rfl
  | compare c x v =>
    obtain ⟨a, n, hx⟩ := h x (List.mem_singleton_self x)
    exact clear_compare hx c v
  | isIn x vs =>
    obtain ⟨a, n, hx⟩ := h x (List.mem_singleton_self x)
    exact clear_isIn hx vs
  | notIn x vs =>
    obtain ⟨a, n, hx⟩ := h x (List.mem_singleton_self x)
    exact clear_notIn hx vs
  | isNull x =>
    obtain ⟨a, n, hx⟩ := h x (List.mem_singleton_self x)
    refine clear_test rfl hx fun bound => ⟨.isNull a n, hx.read.2.isNull, fun db env σ hσ => ?_⟩
    rw [Phrase.truth, Database.truth, hσ]
  | isNotNull x =>
    obtain ⟨a, n, hx⟩ := h x (List.mem_singleton_self x)
    refine clear_test rfl hx fun bound => ⟨.isNotNull a n, hx.read.2.isNotNull, fun db env σ hσ => ?_⟩
    rw [Phrase.truth, Database.truth, hσ]
  | all cs ih =>
    have hclear : ∀ c ∈ cs, c.Clear d := fun c hc => ih c hc fun x hx => h x (mem_exprsAll hc hx)
    cases cs with
    | nil => exact clear_constant (b := true) (fun _ => rfl) rfl fun _ _ => rfl
    | cons c cs =>
      intro bound
      obtain ⟨p, hlegible, htruth⟩ := (joins_and d).clear (hclear c (List.mem_cons_self ..))
        (fun c hc => hclear c (List.mem_cons_of_mem _ hc)) bound
      exact ⟨p, hlegible.disjunction.group, htruth⟩
  | any cs ih =>
    have hclear : ∀ c ∈ cs, c.Clear d := fun c hc => ih c hc fun x hx => h x (mem_exprsAll hc hx)
    cases cs with
    | nil => exact clear_constant (b := false) (fun _ => rfl) rfl fun _ _ => rfl
    | cons c cs =>
      intro bound
      obtain ⟨p, hlegible, htruth⟩ := (joins_or d).clear (hclear c (List.mem_cons_self ..))
        (fun c hc => hclear c (List.mem_cons_of_mem _ hc)) bound
      exact ⟨p, hlegible.group, htruth⟩
  | negation c ih =>
    intro bound
    obtain ⟨p, hlegible, htruth⟩ := ih h bound
    refine ⟨.negation p, hlegible.conjunction.disjunction.negation, fun db env σ hσ => ?_⟩
    rw [Phrase.truth, Database.truth, htruth db env σ hσ]

end Condition

/-! ## Assignments -/

/-- What the column that a text names holds. -/
def Assignment.value (σ : Assignment) (text : String) : Value :=
  match lex '\x22' text.toList with
  | some [.word a, .dot, .word n] => σ a n
  | some [.word a, .dot, .name n] => σ a n
  | _ => .null

/-- The aliases stand for what the assignment says of their columns. -/
def Assignment.env (σ : Assignment) : Env := fun a => some fun n => σ.value (Expr.column a n).text

/-- A database in which a text that is taken as it stands is worth what the column it names holds. -/
def Database.holding (db : Database) (σ : Assignment) : Database :=
  { db with verbatim := fun text _ => σ.value text }

theorem Expr.eval_holding (db : Database) (σ : Assignment) (x : Expr) :
    x.eval (db.holding σ) σ.env = σ.value x.text := by
  cases x <;> rfl

/-- Under an assignment the columns hold what it says, by whatever expressions they are named. -/
theorem Assignment.holds (σ : Assignment) (db : Database) (xs : List Expr) :
    σ.Holds (db.holding σ) σ.env xs := by
  intro x _ a n hx
  obtain ⟨hlex, hcolumn⟩ := hx.read
  rw [Expr.eval_holding, Assignment.value, hlex]
  rcases hcolumn with heq | heq <;> rw [heq]

theorem Phrase.truth_holding (db : Database) (σ : Assignment) (p : Phrase) :
    p.truth (db.holding σ) σ = p.truth db σ := by
  induction p with
  | compare c a n v => cases c <;> rfl
  | both p p' ih ih' => simp only [truth, ih, ih']
  | either p p' ih ih' => simp only [truth, ih, ih']
  | negation p ih => simp only [truth, ih]
  | _ => rfl

/-! ## The text of a condition -/

/-- Reads a text with its parameters, before which `bound` others have been taken. -/
def readBack (d : Dialect) (bound : Nat) (text : String) (values : List Value) : Option Phrase :=
  ((lex '\x22' text.toList).bind fun ts => supply d bound ts values).bind parse

theorem Legible.readBack {text : String} (hlex : lex '\x22' text.toList = some ts)
    (h : Legible d bound .disjunction ts vs p) : readBack d bound text vs = some p := by
  obtain ⟨bs, hsupply, hreads⟩ := h
  simp only [Sql.readBack, hlex, hsupply, Option.bind_some, hreads.parse]

/-- The text of a condition on named columns is read, with its parameters, as a phrase that is true, false
or unknown just as the condition is. -/
theorem Condition.readBack_text (d : Dialect) (c : Condition) (h : ∀ x ∈ c.exprs, ∃ a n, x.Names a n)
    (bound : Nat) : ∃ p, Sql.readBack d bound (c.text d bound) c.params = some p ∧
      ∀ db σ, p.truth db σ = (db.holding σ).truth σ.env c := by
  obtain ⟨p, hlegible, htruth⟩ := c.clear d h bound
  have hlex := c.lex_text (f := Expr.read) .double d (fun x hx => by
    obtain ⟨a, n, hx⟩ := h x hx
    exact hx.read.1) bound
  refine ⟨p, hlegible.conjunction.disjunction.readBack hlex, fun db σ => ?_⟩
  rw [← htruth _ _ σ (σ.holds db c.exprs), p.truth_holding]

/-- A condition on named columns, written behind whatever a sheet has already, appends a text and the
parameters of it; the text with these parameters reads as a phrase, and on every assignment of values to
columns the phrase is true, false or unknown just as the condition is. -/
theorem Condition.write_means (d : Dialect) (c : Condition) (sheet : Sheet)
    (h : ∀ x ∈ c.exprs, ∃ a n, x.Names a n) : ∃ text values p,
    c.write d sheet = ⟨sheet.text ++ text, sheet.params ++ values⟩ ∧
      readBack d sheet.params.length text values = some p ∧
      ∀ db σ, p.truth db σ = (db.holding σ).truth σ.env c := by
  obtain ⟨p, hread, htruth⟩ := c.readBack_text d h sheet.params.length
  exact ⟨_, _, p, c.appends d sheet, hread, htruth⟩

/-- Groups in groups, one of them empty; a reserved column, a column that is named by its text, a
comparison with null, and a list; behind a sheet with two parameters. -/
theorem Condition.write_means_nested :
    let c : Condition := .any [
      .all [.compare .greaterOrEqual (.column "BOOK2" "order") (.str "M"),
        .negation (.any [.isIn (.verbatim "AUTHOR1.\x22two words\x22") [.str "a", .null, .str "b"],
          .compare .equal (.column "AUTHOR1" "mentor_id") .null])],
      .all []]
    let sheet : Sheet := ⟨"year > $1 AND pages < $2 AND ", [.str "x", .str "y"]⟩
    (∀ x ∈ c.exprs, ∃ a n, x.Names a n) ∧ ∃ text values p,
      c.write .postgres sheet = ⟨sheet.text ++ text, sheet.params ++ values⟩ ∧
      readBack .postgres sheet.params.length text values = some p ∧
      ∀ db σ, p.truth db σ = (db.holding σ).truth σ.env c := by
  intro c sheet
  have hnamed : ∀ x ∈ c.exprs, ∃ a n, x.Names a n := by
    intro x hx
    have hx : x ∈ [Expr.column "BOOK2" "order", .verbatim "AUTHOR1.\x22two words\x22",
      .column "AUTHOR1" "mentor_id"] := hx
    simp only [List.mem_cons, List.not_mem_nil, or_false] at hx
    obtain rfl | rfl | rfl := hx
    · exact ⟨_, _, Expr.names_column (by decide) (.inl (by decide))⟩
    · exact ⟨"AUTHOR1", "two words", by decide, .inr (by decide)⟩
    · exact ⟨_, _, Expr.names_column (by decide) (.inr (by decide))⟩
  exact ⟨hnamed, c.write_means .postgres sheet hnamed⟩

end GraphLoad.Sql
