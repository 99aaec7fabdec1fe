/-
Conditions as they are written: on a sheet that may have text and parameters already, piece by piece, each
value being bound where its mark is appended. What is appended is the text of the condition, its marks
numbered on from those of the sheet, and the parameters are those of the condition.
-/
import GraphLoad.Sql.Condition

namespace GraphLoad.Sql

namespace Condition

/-- What holds of a condition if it holds of its parts. -/
@[elab_as_elim]
theorem induct {P : Condition → Prop} (always : P .always)
    (compare : ∀ c x v, P (.compare c x v)) (isIn : ∀ x vs, P (.isIn x vs))
    (notIn : ∀ x vs, P (.notIn x vs)) (isNull : ∀ x, P (.isNull x))
    (isNotNull : ∀ x, P (.isNotNull x)) (all : ∀ cs, (∀ c ∈ cs, P c) → P (.all cs))
    (any : ∀ cs, (∀ c ∈ cs, P c) → P (.any cs)) (negation : ∀ c, P c → P (.negation c)) :
    ∀ c, P c
  | .always => always
  | .compare c x v => compare c x v
  | .isIn x vs => isIn x vs
  | .notIn x vs => notIn x vs
  | .isNull x => isNull x
  | .isNotNull x => isNotNull x
  | .all cs => all cs fun c _ =>
    induct always compare isIn notIn isNull isNotNull all any negation c
  | .any cs => any cs fun c _ =>
    induct always compare isIn notIn isNull isNotNull all any negation c
  | .negation c => negation c (induct always compare isIn notIn isNull isNotNull all any negation c)

end Condition

/-! ## Writing -/

/-- What has been written: the text and the parameters it has bound. -/
@[ext]
structure Sheet where
  text : String := ""
  params : List Value := []

namespace Sheet

/-- Appends a text. -/
def put (s : Sheet) (text : String) : Sheet := { s with text := s.text ++ text }

/-- Binds a value and appends its mark, which has the number of parameters that are bound now. -/
def bindNext (d : Dialect) (s : Sheet) (v : Value) : Sheet :=
  let s := { s with params := s.params ++ [v] }
  s.put (d.placeholder s.params.length)

/-- Appends the comparison of a column with a value. -/
def comparison (d : Dialect) (s : Sheet) (column word : String) (v : Value) : Sheet :=
  ((((s.put column).put " ").put word).put " ").bindNext d v

/-- Appends the members of a list behind others. -/
def more (d : Dialect) (s : Sheet) (values : List Value) : Sheet :=
  values.foldl (fun s v => (s.put ", ").bindNext d v) s

/-- Appends a membership test of a column. -/
def membership (d : Dialect) (s : Sheet) (column word : String) (values : List Value) : Sheet :=
  let s := (((s.put column).put " ").put word).put " ("
  (match values with
    | [] => s
    | v :: values => (s.bindNext d v).more d values).put ")"

end Sheet

namespace Condition

mutual

/-- Appends a condition. -/
def write (d : Dialect) : Condition → Sheet → Sheet
  | .always, s => s.put "TRUE"
  | .compare .equal x v, s =>
    if v.isNull then (s.put x.text).put " IS NULL" else s.comparison d x.text "=" v
  | .compare .notEqual x v, s =>
    if v.isNull then (s.put x.text).put " IS NOT NULL" else s.comparison d x.text "!=" v
  | .compare c x v, s => s.comparison d x.text c.text v
  | .isIn x vs, s => if vs.isEmpty then s.put "FALSE" else s.membership d x.text "IN" vs
  | .notIn x vs, s => if vs.isEmpty then s.put "TRUE" else s.membership d x.text "NOT IN" vs
  | .isNull x, s => (s.put x.text).put " IS NULL"
  | .isNotNull x, s => (s.put x.text).put " IS NOT NULL"
  | .all [], s => s.put "TRUE"
  | .any [], s => s.put "FALSE"
  | .all (c :: cs), s => (writeMore d " AND " cs (write d c (s.put "("))).put ")"
  | .any (c :: cs), s => (writeMore d " OR " cs (write d c (s.put "("))).put ")"
  | .negation c, s => (write d c (s.put "NOT (")).put ")"

/-- Appends conditions behind another. -/
def writeMore (d : Dialect) (joiner : String) : List Condition → Sheet → Sheet
  | [], s => s
  | c :: cs, s => writeMore d joiner cs (write d c (s.put joiner))

end

end Condition

namespace Sheet

variable (d : Dialect) (s : Sheet)

@[simp] theorem put_text (t : String) : (s.put t).text = s.text ++ t := rfl

@[simp] theorem put_params (t : String) : (s.put t).params = s.params := rfl

@[simp] theorem bindNext_text (v : Value) :
    (s.bindNext d v).text = s.text ++ d.placeholder (s.params.length + 1) := by
  simp [bindNext]

@[simp] theorem bindNext_params (v : Value) : (s.bindNext d v).params = s.params ++ [v] := rfl

@[simp] theorem comparison_text (column word : String) (v : Value) :
    (s.comparison d column word v).text =
      s.text ++ (column ++ " " ++ word ++ " " ++ d.placeholder (s.params.length + 1)) := by
  simp [comparison, String.append_assoc]

@[simp] theorem comparison_params (column word : String) (v : Value) :
    (s.comparison d column word v).params = s.params ++ [v] := rfl

end Sheet

namespace Condition

/-- Parameters are numbered on behind the first one. -/
theorem numbered_cons {α : Type} (mark : Nat → α) (bound : Nat) (v : Value) (values : List Value) :
    (v :: values).mapIdx (fun i _ => mark (bound + i + 1)) =
      mark (bound + 1) :: values.mapIdx fun i _ => mark (bound + 1 + i + 1) := by
  simp only [List.mapIdx_cons, Nat.add_zero, List.cons.injEq, true_and]
  congr 1
  funext i _
  have hnext : bound + (i + 1) + 1 = bound + 1 + i + 1 := by omega
  rw [hnext]

/-- The marks of some parameters, the first of which is the next. -/
theorem placeholders_cons (d : Dialect) (bound : Nat) (v : Value) (values : List Value) :
    placeholders d bound (v :: values) =
      d.placeholder (bound + 1) :: placeholders d (bound + 1) values :=
  numbered_cons d.placeholder bound v values

end Condition

theorem Sheet.more_eq (d : Dialect) (s : Sheet) (v : Value) (values : List Value) :
    (s.bindNext d v).more d values =
      ⟨s.text ++ String.intercalate ", " (Condition.placeholders d s.params.length (v :: values)),
        s.params ++ v :: values⟩ := by
  induction values generalizing s v with
  | nil =>
    ext1
    · simp [more, Condition.placeholders]
    · rfl
  | cons w values ih =>
    show (((s.bindNext d v).put ", ").bindNext d w).more d values = _
    rw [ih, Condition.placeholders_cons d s.params.length, Condition.placeholders_cons d (_ + 1),
      String.intercalate_cons_cons]
    ext1
    · simp [Condition.placeholders_cons, String.append_assoc]
    · simp

theorem Sheet.membership_eq (d : Dialect) (s : Sheet) (x : Expr) (word : String) (v : Value)
    (values : List Value) : s.membership d x.text word (v :: values) =
      ⟨s.text ++ Condition.membershipText d s.params.length x word (v :: values),
        s.params ++ v :: values⟩ := by
  ext1
  · simp [membership, Sheet.more_eq, Condition.membershipText, String.append_assoc]
  · simp [membership, Sheet.more_eq]

namespace Condition

variable {d : Dialect}

/-- What a condition appends to any sheet is its text, numbered on, and its parameters. -/
def Appends (d : Dialect) (c : Condition) : Prop :=
  ∀ s : Sheet, c.write d s = ⟨s.text ++ c.text d s.params.length, s.params ++ c.params⟩

theorem writeMore_eq {c : Condition} {cs : List Condition} (hc : c.Appends d)
    (hcs : ∀ c ∈ cs, c.Appends d) (joiner : String) (s : Sheet) :
    writeMore d joiner cs (c.write d s) =
      ⟨s.text ++ String.intercalate joiner (textAll d s.params.length (c :: cs)),
        s.params ++ paramsAll (c :: cs)⟩ := by
  induction cs generalizing c s with
  | nil => simp [writeMore, hc s, textAll, paramsAll]
  | cons c' cs ih =>
    rw [writeMore, ih (hcs c' (List.mem_cons_self ..)) fun c hc => hcs c (List.mem_cons_of_mem _ hc), hc s]
    ext1
    · simp [textAll, String.append_assoc]
    · simp [paramsAll]

theorem appends (d : Dialect) (c : Condition) : c.Appends d := by
  induction c using Condition.induct with
  | always =>
    intro s
    ext1 <;> simp [write, text, params]
  | compare c x v =>
    intro s
    ext1 <;> cases c <;> simp only [write, text, params] <;> try split
    all_goals simp [comparisonText, Comparison.text, String.append_assoc]
  | isIn x vs =>
    intro s
    cases vs with
    | nil => ext1 <;> simp [write, text, params]
    | cons v vs => simpa [write, text, params] using s.membership_eq d x "IN" v vs
  | notIn x vs =>
    intro s
    cases vs with
    | nil => ext1 <;> simp [write, text, params]
    | cons v vs => simpa [write, text, params] using s.membership_eq d x "NOT IN" v vs
  | isNull x =>
    intro s
    ext1 <;> simp [write, text, params, String.append_assoc]
  | isNotNull x =>
    intro s
    ext1 <;> simp [write, text, params, String.append_assoc]
  | all cs ih =>
    intro s
    cases cs with
    | nil => ext1 <;> simp [write, text, params, paramsAll]
    | cons c cs =>
      rw [write, writeMore_eq (ih c (List.mem_cons_self ..))
        fun c hc => ih c (List.mem_cons_of_mem _ hc)]
      ext1 <;> simp [text, params, String.append_assoc]
  | any cs ih =>
    intro s
    cases cs with
    | nil => ext1 <;> simp [write, text, params, paramsAll]
    | cons c cs =>
      rw [write, writeMore_eq (ih c (List.mem_cons_self ..))
        fun c hc => ih c (List.mem_cons_of_mem _ hc)]
      ext1 <;> simp [text, params, String.append_assoc]
  | negation c ih =>
    intro s
    rw [write, ih]
    ext1 <;> simp [text, params, String.append_assoc]

end Condition

end GraphLoad.Sql
