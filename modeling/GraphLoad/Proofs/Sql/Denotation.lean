/-
What statements mean over a database: tables joined in order, an inner join keeping what has a
partner and a left join padding what has none, then the condition, then the selected columns. Values
that are not null are equal if they are the same; a comparison with null is never true.
-/
import GraphLoad.Object.Row
import GraphLoad.Sql.Select

namespace GraphLoad

namespace Sql

/-- A row of a table: the value of each column. -/
abbrev Tuple := String → Value

/-- What the aliases of a statement stand for: a row of a table, or none. -/
abbrev Env := String → Option Tuple

namespace Env

/-- No alias stands for anything. -/
def empty : Env := fun _ => none

/-- The environment in which an alias stands for `o`. -/
def bind (env : Env) (aliasName : String) (o : Option Tuple) : Env :=
  fun b => if b = aliasName then o else env b

@[simp] theorem bind_self (env : Env) (a : String) (o : Option Tuple) : env.bind a o a = o :=
  if_pos rfl

theorem bind_of_ne (env : Env) {a b : String} (h : b ≠ a) (o : Option Tuple) :
    env.bind a o b = env b :=
  if_neg h

theorem bind_keeps {P : Tuple → Prop} {env : Env} {a : String} {o : Option Tuple}
    (henv : ∀ b u, env b = some u → P u) (ho : ∀ u, o = some u → P u) :
    ∀ b u, env.bind a o b = some u → P u := by
  intro b u hu
  unfold bind at hu
  split at hu
  · exact ho u hu
  · exact henv b u hu

end Env

/-- A database: the rows of every table, and what else a statement computes with, the orderings and
patterns of values that are not null and the texts that are taken as they stand. -/
structure Database where
  tuples : Table → List Tuple
  compare : Comparison → Value → Value → Bool
  verbatim : String → Env → Value

/-! ## Truth -/

/-- Whether two values are equal, which is unknown if one of them is null. -/
def equality (x y : Value) : Option Bool :=
  if x.isNull || y.isNull then none else some (x.sameAs y)

theorem equality_eq_true {x y : Value} :
    equality x y = some true ↔ x.isNull = false ∧ y.isNull = false ∧ x.sameAs y = true := by
  unfold equality
  cases x.isNull <;> cases y.isNull <;> simp

/-- Both of two truth values. -/
def both : Option Bool → Option Bool → Option Bool
  | some false, _ => some false
  | _, some false => some false
  | some true, some true => some true
  | _, _ => none

/-- One of two truth values. -/
def either : Option Bool → Option Bool → Option Bool
  | some true, _ => some true
  | _, some true => some true
  | some false, some false => some false
  | _, _ => none

theorem both_eq_true {p q : Option Bool} :
    both p q = some true ↔ p = some true ∧ q = some true := by
  rcases p with _ | _ | _ <;> rcases q with _ | _ | _ <;> simp [both]

theorem either_eq_true {p q : Option Bool} :
    either p q = some true ↔ p = some true ∨ q = some true := by
  rcases p with _ | _ | _ <;> rcases q with _ | _ | _ <;> simp [either]

theorem both_true (t : Option Bool) : both t (some true) = t := by
  rcases t with _ | _ | _ <;> rfl

theorem true_both (t : Option Bool) : both (some true) t = t := by
  rcases t with _ | _ | _ <;> rfl

theorem both_assoc (t u v : Option Bool) : both (both t u) v = both t (both u v) := by
  rcases t with _ | _ | _ <;> rcases u with _ | _ | _ <;> rcases v with _ | _ | _ <;> rfl

theorem either_false (t : Option Bool) : either t (some false) = t := by
  rcases t with _ | _ | _ <;> rfl

/-- Whether a value is among others. -/
def among (x : Value) : List Value → Option Bool
  | [] => some false
  | v :: rest => either (equality x v) (among x rest)

theorem among_eq_true {x : Value} {values : List Value} :
    among x values = some true ↔ ∃ v ∈ values, equality x v = some true := by
  induction values with
  | nil => simp [among]
  | cons v rest ih => simp [among, either_eq_true, ih]

/-- The value of an expression. A column of an alias that stands for nothing is null. -/
def Expr.eval (db : Database) (env : Env) : Expr → Value
  | .column aliasName name =>
    match env aliasName with
    | some u => u name
    | none => .null
  | .verbatim text => db.verbatim text env

namespace Database

/-- The outcome of comparing a value with a parameter; a null parameter makes an equality a test for
null. -/
def comparison (db : Database) (c : Comparison) (x v : Value) : Option Bool :=
  match c with
  | .equal => if v.isNull then some x.isNull else equality x v
  | .notEqual => if v.isNull then some (!x.isNull) else (equality x v).map (!·)
  | c => if x.isNull || v.isNull then none else some (db.compare c x v)

mutual

/-- The truth of a condition, unknown where it depends on a comparison with null. -/
def truth (db : Database) (env : Env) : Condition → Option Bool
  | .always => some true
  | .compare c column value => db.comparison c (column.eval db env) value
  | .isIn column values => among (column.eval db env) values
  | .notIn column values => (among (column.eval db env) values).map (!·)
  | .isNull column => some (column.eval db env).isNull
  | .isNotNull column => some (!(column.eval db env).isNull)
  | .all conditions => truthAll db env conditions
  | .any conditions => truthAny db env conditions
  | .negation condition => (truth db env condition).map (!·)

/-- The truth of all of some conditions. -/
def truthAll (db : Database) (env : Env) : List Condition → Option Bool
  | [] => some true
  | c :: cs => both (truth db env c) (truthAll db env cs)

/-- The truth of one of some conditions. -/
def truthAny (db : Database) (env : Env) : List Condition → Option Bool
  | [] => some false
  | c :: cs => either (truth db env c) (truthAny db env cs)

end

/-! ## Rows -/

/-- Whether all equalities of a join are true. -/
def joined (db : Database) (env : Env) (on : List (Expr × Expr)) : Bool :=
  on.all fun e => equality (e.1.eval db env) (e.2.eval db env) == some true

/-- The environments that a join makes of one. -/
def join (db : Database) (j : Join) (env : Env) : List Env :=
  let partners := (db.tuples j.table).filter fun u => db.joined (env.bind j.aliasName (some u)) j.on
  match j.kind, partners with
  | .left, [] => [env.bind j.aliasName none]
  | _, partners => partners.map fun u => env.bind j.aliasName (some u)

/-- The environments that joins make of one, one join after the other. -/
def joinAll (db : Database) : List Join → Env → List Env
  | [], env => [env]
  | j :: js, env => (db.join j env).flatMap (db.joinAll js)

/-- The environments in which the tables of a statement are joined. -/
def envs (db : Database) (q : Select) : List Env :=
  match q.source with
  | none => []
  | some (table, aliasName) =>
    (db.tuples table).flatMap fun u => db.joinAll q.joins (Env.empty.bind aliasName (some u))

/-- The row that a statement selects from an environment. -/
def row (db : Database) (q : Select) (env : Env) : Row :=
  .ofList (q.columns.map fun c => (c.label, c.expr.eval db env))

/-- The rows of a statement that names its columns and takes no window, in the order of its
tables. -/
def rows (db : Database) (q : Select) : List Row :=
  ((db.envs q).filter fun env => db.truth env q.condition == some true).map (db.row q)

theorem mem_rows {db : Database} {q : Select} {r : Row} :
    r ∈ db.rows q ↔ ∃ env ∈ db.envs q, db.truth env q.condition = some true ∧ db.row q env = r := by
  simp [rows, and_assoc]

/-! ## Conditions on one alias -/

theorem truthAll_eq_true {db : Database} {env : Env} {cs : List Condition} :
    db.truthAll env cs = some true ↔ ∀ c ∈ cs, db.truth env c = some true := by
  induction cs with
  | nil => simp [truthAll]
  | cons c cs ih => simp [truthAll, both_eq_true, ih]

theorem truthAny_eq_true {db : Database} {env : Env} {cs : List Condition} :
    db.truthAny env cs = some true ↔ ∃ c ∈ cs, db.truth env c = some true := by
  induction cs with
  | nil => simp [truthAny]
  | cons c cs ih => simp [truthAny, either_eq_true, ih]

theorem truthAll_congr {db : Database} {env env' : Env} {cs : List Condition}
    (h : ∀ c ∈ cs, db.truth env c = db.truth env' c) :
    db.truthAll env cs = db.truthAll env' cs := by
  induction cs with
  | nil => rfl
  | cons c cs ih =>
    rw [truthAll, truthAll, h c (List.mem_cons_self ..),
      ih fun d hd => h d (List.mem_cons_of_mem _ hd)]

end Database

namespace Condition

/-- Conditions that only read columns of one alias, as predicates and their conjunctions do. -/
inductive Reads (aliasName : String) : Condition → Prop
  | always : Reads aliasName .always
  | compare (c : Comparison) (name : String) (v : Value) :
      Reads aliasName (.compare c (.column aliasName name) v)
  | isIn (name : String) (vs : List Value) : Reads aliasName (.isIn (.column aliasName name) vs)
  | notIn (name : String) (vs : List Value) : Reads aliasName (.notIn (.column aliasName name) vs)
  | isNull (name : String) : Reads aliasName (.isNull (.column aliasName name))
  | isNotNull (name : String) : Reads aliasName (.isNotNull (.column aliasName name))
  | all {cs : List Condition} : (∀ c ∈ cs, Reads aliasName c) → Reads aliasName (.all cs)

theorem reads_predicate (p : Predicate) (a name : String) : (p.on (.column a name)).Reads a := by
  unfold Predicate.on
  cases p.operator <;> constructor

/-- A condition that only reads one alias has the same truth wherever that stands for the same. -/
theorem Reads.truth_congr {db : Database} {env env' : Env} {a : String} {c : Condition}
    (h : c.Reads a) (ha : env a = env' a) : db.truth env c = db.truth env' c := by
  have heval : ∀ name, Expr.eval db env (.column a name) = Expr.eval db env' (.column a name) := by
    intro name
    simp only [Expr.eval, ha]
  induction h with
  | always => rfl
  | compare c name v => simp only [Database.truth, heval]
  | isIn name vs => simp only [Database.truth, heval]
  | notIn name vs => simp only [Database.truth, heval]
  | isNull name => simp only [Database.truth, heval]
  | isNotNull name => simp only [Database.truth, heval]
  | @all cs _ ih =>
    simp only [Database.truth]
    exact Database.truthAll_congr fun c hc => ih c hc

end Condition

/-! ## Conditions made of others -/

namespace Database

variable {db : Database} {env : Env}

theorem truth_of_isAlways {c : Condition} (h : c.isAlways = true) : db.truth env c = some true := by
  cases c <;> first | rfl | cases h

theorem truthAll_append (cs ds : List Condition) :
    db.truthAll env (cs ++ ds) = both (db.truthAll env cs) (db.truthAll env ds) := by
  induction cs with
  | nil => rw [List.nil_append, truthAll, true_both]
  | cons c cs ih => rw [List.cons_append, truthAll, truthAll, ih, both_assoc]

theorem truthAll_singleton (c : Condition) : db.truthAll env [c] = db.truth env c := by
  rw [truthAll, truthAll, both_true]

theorem truthAny_singleton (c : Condition) : db.truthAny env [c] = db.truth env c := by
  rw [truthAny, truthAny, either_false]

/-- Conditions that demand nothing add nothing to a conjunction. -/
theorem truthAll_present (cs : List Condition) :
    db.truthAll env (Condition.present cs) = db.truthAll env cs := by
  induction cs with
  | nil => rfl
  | cons c cs ih =>
    rw [truthAll, ← ih]
    cases hc : c.isAlways with
    | true => rw [Condition.present, List.filter_cons_of_neg (by simp [hc]), truth_of_isAlways hc,
        true_both, Condition.present]
    | false => rw [Condition.present, List.filter_cons_of_pos (by simp [hc]), truthAll,
        Condition.present]

end Database

namespace Condition

variable {db : Database} {env : Env} {cs : List Condition}

theorem mem_present {c : Condition} : c ∈ present cs ↔ c ∈ cs ∧ c.isAlways = false := by
  simp [present]

theorem truth_allOf (cs : List Condition) : db.truth env (allOf cs) = db.truthAll env cs := by
  rw [← Database.truthAll_present]
  unfold allOf
  split
  · rename_i hnil
    rw [hnil, Database.truth, Database.truthAll]
  · rename_i c hone
    rw [hone, Database.truthAll_singleton]
  · rw [Database.truth]

theorem truth_anyOf (cs : List Condition) : db.truth env (anyOf cs) =
    if (present cs).isEmpty then some true else db.truthAny env (present cs) := by
  unfold anyOf
  split
  · rename_i hnil
    rw [hnil, List.isEmpty_nil, if_pos rfl, Database.truth]
  · rename_i c hone
    rw [hone, List.isEmpty_cons, if_neg Bool.false_ne_true, Database.truthAny_singleton]
  · rename_i hnil _
    rw [if_neg (by rwa [List.isEmpty_iff]), Database.truth]

theorem truth_opposite (c : Condition) : db.truth env c.opposite =
    if c.isAlways then some true else (db.truth env c).map (!·) := by
  unfold opposite
  split
  · rw [Database.truth]
  · rw [Database.truth]

theorem truth_and (c d : Condition) :
    db.truth env (c.and d) = both (db.truth env c) (db.truth env d) := by
  unfold Condition.and
  split
  · rename_i hc
    rw [Database.truth_of_isAlways hc, true_both]
  · split
    · rename_i hd
      rw [Database.truth_of_isAlways hd, both_true]
    · split
      · rw [Database.truth, Database.truth, Database.truthAll_append, Database.truthAll_singleton]
      · rw [Database.truth, Database.truthAll, Database.truthAll_singleton]

theorem truth_restrict (q : Select) (c : Condition) :
    db.truth env (q.restrict c).condition = both (db.truth env q.condition) (db.truth env c) :=
  truth_and q.condition c

/-- A condition that demands something makes a conjunction that does. -/
theorem isAlways_allOf (h : ∃ c ∈ cs, c.isAlways = false) : (allOf cs).isAlways = false := by
  obtain ⟨c, hc, hnot⟩ := h
  have hin : c ∈ present cs := mem_present.2 ⟨hc, hnot⟩
  unfold allOf
  split
  · rename_i hnil
    rw [hnil] at hin
    cases hin
  · rename_i d hone
    exact (mem_present.1 (hone ▸ List.mem_singleton_self d)).2
  · rfl

/-- So does a choice. -/
theorem isAlways_anyOf (h : ∃ c ∈ cs, c.isAlways = false) : (anyOf cs).isAlways = false := by
  obtain ⟨c, hc, hnot⟩ := h
  have hin : c ∈ present cs := mem_present.2 ⟨hc, hnot⟩
  unfold anyOf
  split
  · rename_i hnil
    rw [hnil] at hin
    cases hin
  · rename_i d hone
    exact (mem_present.1 (hone ▸ List.mem_singleton_self d)).2
  · rfl

theorem isAlways_and (c d : Condition) : (c.and d).isAlways = (c.isAlways && d.isAlways) := by
  unfold Condition.and
  split
  · rename_i hc
    rw [hc, Bool.true_and]
  · rename_i hc
    have hc : c.isAlways = false := by simpa using hc
    rw [hc, Bool.false_and]
    split
    · exact hc
    · split <;> rfl

/-- Where every condition demands something, a choice is true if one of them is. -/
theorem truth_anyOf_eq_true (h : ∀ c ∈ cs, c.isAlways = false) (hne : cs ≠ []) :
    db.truth env (anyOf cs) = some true ↔ ∃ c ∈ cs, db.truth env c = some true := by
  have hall : present cs = cs := List.filter_eq_self.2 fun c hc => by simp [h c hc]
  rw [truth_anyOf, hall, if_neg (by rwa [List.isEmpty_iff]), Database.truthAny_eq_true]

end Condition

end Sql

end GraphLoad
