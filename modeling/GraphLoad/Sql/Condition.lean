/-
Conditions over the columns of joined tables, and their text with numbered parameters. A predicate
is what a caller states of a field; bound to a column it becomes a condition.
-/
import GraphLoad.Sql.Dialect
import GraphLoad.Value

namespace GraphLoad.Sql

/-! ## Expressions -/

/-- What a statement computes with: a column of the table known under an alias, or a text that is
taken as it stands. -/
inductive Expr
  | column (aliasName name : String)
  | verbatim (text : String)
deriving DecidableEq

/-- The text of an expression. -/
def Expr.text : Expr → String
  | .column aliasName name => aliasName ++ "." ++ nameText name
  | .verbatim text => text

/-! ## Operators -/

/-- The operators that compare a column with one value. -/
inductive Comparison
  | equal
  | notEqual
  | less
  | lessOrEqual
  | greater
  | greaterOrEqual
  | like
  | notLike
deriving DecidableEq

/-- The spelling of a comparison. -/
def Comparison.text : Comparison → String
  | equal => "="
  | notEqual => "!="
  | less => "<"
  | lessOrEqual => "<="
  | greater => ">"
  | greaterOrEqual => ">="
  | like => "LIKE"
  | notLike => "NOT LIKE"

/-- The operators of predicates: the comparisons, membership in a list, and the tests for null. -/
inductive Operator
  | compare (c : Comparison)
  | isIn
  | notIn
  | isNull
  | isNotNull
deriving DecidableEq

namespace Operator

/-- The spelling of an operator. -/
def text : Operator → String
  | compare c => c.text
  | isIn => "IN"
  | notIn => "NOT IN"
  | isNull => "IS NULL"
  | isNotNull => "IS NOT NULL"

/-- The operator that a text spells, with any blanks between its words and in any case. -/
def parse (s : String) : Except LoadError Operator :=
  match Text.upper (String.intercalate " " (Text.words s)) with
  | "=" => .ok (compare .equal)
  | "==" => .ok (compare .equal)
  | "!=" => .ok (compare .notEqual)
  | "<>" => .ok (compare .notEqual)
  | "<" => .ok (compare .less)
  | "<=" => .ok (compare .lessOrEqual)
  | ">" => .ok (compare .greater)
  | ">=" => .ok (compare .greaterOrEqual)
  | "LIKE" => .ok (compare .like)
  | "NOT LIKE" => .ok (compare .notLike)
  | "IN" => .ok isIn
  | "NOT IN" => .ok notIn
  | "IS NULL" => .ok isNull
  | "IS NOT NULL" => .ok isNotNull
  | _ => .error (.invalidOperator s)

end Operator

/-! ## Conditions -/

/-- A condition of a statement. `always` is the absence of one. -/
inductive Condition
  | always
  | compare (c : Comparison) (column : Expr) (value : Value)
  | isIn (column : Expr) (values : List Value)
  | notIn (column : Expr) (values : List Value)
  | isNull (column : Expr)
  | isNotNull (column : Expr)
  | all (conditions : List Condition)
  | any (conditions : List Condition)
  | negation (condition : Condition)

namespace Condition

instance : Inhabited Condition := ⟨.always⟩

/-- Whether there is no condition at all. -/
def isAlways : Condition → Bool
  | .always => true
  | _ => false

/-- The conditions that demand something. -/
def present (conditions : List Condition) : List Condition :=
  conditions.filter fun c => !c.isAlways

/-- All of the conditions; a single one stands for itself. -/
def allOf (conditions : List Condition) : Condition :=
  match present conditions with
  | [] => .always
  | [c] => c
  | cs => .all cs

/-- Any of the conditions; a single one stands for itself, and none demands nothing. -/
def anyOf (conditions : List Condition) : Condition :=
  match present conditions with
  | [] => .always
  | [c] => c
  | cs => .any cs

/-- The opposite; the opposite of demanding nothing is demanding nothing. -/
def opposite (c : Condition) : Condition :=
  if c.isAlways then .always else .negation c

/-- Both conditions; a conjunction on the left takes in the one on the right. -/
def and (c d : Condition) : Condition :=
  if c.isAlways then d
  else if d.isAlways then c
  else
    match c with
    | .all cs => .all (cs ++ [d])
    | _ => .all [c, d]

/-! ## Text -/

/-- The text of a list of parameters, the first of which has the number `bound + 1`. -/
def placeholders (dialect : Dialect) (bound : Nat) (values : List Value) : List String :=
  values.mapIdx fun i _ => dialect.placeholder (bound + i + 1)

/-- The text of a membership test. -/
def membershipText (dialect : Dialect) (bound : Nat) (column : Expr) (word : String)
    (values : List Value) : String :=
  column.text ++ " " ++ word ++ " (" ++
    String.intercalate ", " (placeholders dialect bound values) ++ ")"

mutual

/-- The values that a condition binds, in the order of their parameters. Comparing with null for
equality is a test for null and binds nothing. -/
def params : Condition → List Value
  | .always => []
  | .compare .equal _ value => if value.isNull then [] else [value]
  | .compare .notEqual _ value => if value.isNull then [] else [value]
  | .compare _ _ value => [value]
  | .isIn _ values => values
  | .notIn _ values => values
  | .isNull _ => []
  | .isNotNull _ => []
  | .all conditions => paramsAll conditions
  | .any conditions => paramsAll conditions
  | .negation condition => params condition

/-- The values that a list of conditions binds. -/
def paramsAll : List Condition → List Value
  | [] => []
  | c :: cs => params c ++ paramsAll cs

end

/-- The text of a comparison whose value is the next parameter. -/
def comparisonText (dialect : Dialect) (bound : Nat) (column : Expr) (c : Comparison) : String :=
  column.text ++ " " ++ c.text ++ " " ++ dialect.placeholder (bound + 1)

mutual

/-- The text of a condition when `bound` parameters precede it. -/
def text (dialect : Dialect) (bound : Nat) : Condition → String
  | .always => "TRUE"
  | .compare .equal column value =>
    if value.isNull then column.text ++ " IS NULL" else comparisonText dialect bound column .equal
  | .compare .notEqual column value =>
    if value.isNull then column.text ++ " IS NOT NULL"
    else comparisonText dialect bound column .notEqual
  | .compare c column _ => comparisonText dialect bound column c
  | .isIn column values =>
    if values.isEmpty then "FALSE" else membershipText dialect bound column "IN" values
  | .notIn column values =>
    if values.isEmpty then "TRUE" else membershipText dialect bound column "NOT IN" values
  | .isNull column => column.text ++ " IS NULL"
  | .isNotNull column => column.text ++ " IS NOT NULL"
  | .all conditions =>
    if conditions.isEmpty then "TRUE"
    else "(" ++ String.intercalate " AND " (textAll dialect bound conditions) ++ ")"
  | .any conditions =>
    if conditions.isEmpty then "FALSE"
    else "(" ++ String.intercalate " OR " (textAll dialect bound conditions) ++ ")"
  | .negation condition => "NOT (" ++ text dialect bound condition ++ ")"

/-- The texts of a list of conditions, each preceded by the parameters of those before it. -/
def textAll (dialect : Dialect) (bound : Nat) : List Condition → List String
  | [] => []
  | c :: cs => text dialect bound c :: textAll dialect (bound + (params c).length) cs

end

end Condition

/-! ## Predicates -/

/-- What a caller states of a field. -/
structure Predicate where
  field : String
  operator : Operator
  value : Value

/-- The values of a list, or the one value. -/
def listed : Value → List Value
  | .list items => items
  | value => [value]

/-- The condition that a predicate states of a column. -/
def Predicate.on (p : Predicate) (column : Expr) : Condition :=
  match p.operator with
  | .compare c => .compare c column p.value
  | .isIn => .isIn column (listed p.value)
  | .notIn => .notIn column (listed p.value)
  | .isNull => .isNull column
  | .isNotNull => .isNotNull column

end GraphLoad.Sql
