/-
Conditions made of others. A conjunction, a choice, an opposite and a further demand mean what the
three-valued connectives make of their members; a choice leaves out the members that demand nothing, and
without others it demands nothing, as its opposite does. A statement to which conditions are added one by
one has a WHERE clause that is read as all of them.
-/
import GraphLoad.Proofs.Sql.Reading

namespace GraphLoad.Sql

/-! ## Further demands -/

namespace Select

variable {db : Database} {env : Env}

theorem truth_restrict_foldl (cs : List Condition) (q : Select) :
    db.truth env (cs.foldl restrict q).condition =
      both (db.truth env q.condition) (db.truthAll env cs) := by
  induction cs generalizing q with
  | nil => rw [List.foldl_nil, Database.truthAll, both_true]
  | cons c cs ih =>
    rw [List.foldl_cons, ih, Condition.truth_restrict, both_assoc, Database.truthAll]

theorem isAlways_restrict_foldl (cs : List Condition) (q : Select) :
    (cs.foldl restrict q).condition.isAlways = (q.condition.isAlways && cs.all Condition.isAlways) := by
  induction cs generalizing q with
  | nil => rw [List.foldl_nil, List.all_nil, Bool.and_true]
  | cons c cs ih =>
    have hstep : (q.restrict c).condition = q.condition.and c := rfl
    rw [List.foldl_cons, ih, hstep, Condition.isAlways_and, List.all_cons, Bool.and_assoc]

theorem exprs_restrict_foldl (cs : List Condition) (q : Select) :
    (cs.foldl restrict q).condition.exprs = q.condition.exprs ++ Condition.exprsAll cs := by
  induction cs generalizing q with
  | nil => rw [List.foldl_nil, Condition.exprsAll, List.append_nil]
  | cons c cs ih =>
    have hstep : (q.restrict c).condition = q.condition.and c := rfl
    rw [List.foldl_cons, ih, hstep, Condition.exprs_and, Condition.exprsAll, List.append_assoc]

/-- What stands before the condition of a statement. -/
def opening (q : Select) (dialect : Dialect) : String :=
  "SELECT " ++ columnsText dialect q.columns ++ sourceText q.source ++ String.join (q.joins.map joinText)

/-- What stands behind the condition of a statement. -/
def ending (q : Select) (dialect : Dialect) : String := orderText q.order ++ pageText dialect q.page

/-- A statement that demands something has its condition between the two, and binds what that binds. -/
theorem build_of_demands (dialect : Dialect) {q : Select} (hdemands : q.condition.isAlways = false) :
    (q.build dialect).text =
        q.opening dialect ++ " WHERE " ++ q.condition.text dialect 0 ++ q.ending dialect ∧
      (q.build dialect).params = q.condition.params := by
  simp only [build, text, params, conditionText, opening, ending, hdemands, Bool.false_eq_true, if_false,
    String.append_assoc, and_self]

/-- The WHERE clause of a statement, if there is one, is read with the parameters of the statement as its
condition. -/
theorem where_means (dialect : Dialect) (q : Select)
    (h : ∀ x ∈ q.condition.exprs, ∃ a n, x.Names a n) (hdemands : q.condition.isAlways = false) :
    ∃ text p, conditionText dialect q.condition = " WHERE " ++ text ∧
      readBack dialect 0 text q.params = some p ∧
      ∀ db σ, p.truth db σ = (db.holding σ).truth σ.env q.condition := by
  obtain ⟨p, hread, htruth⟩ := q.condition.readBack_text dialect h 0
  refine ⟨q.condition.text dialect 0, p, ?_, ?_, htruth⟩
  · rw [conditionText, hdemands, if_neg Bool.false_ne_true]
  · rw [params, hdemands, if_neg Bool.false_ne_true, hread]

end Select

/-! ## The connectives -/

namespace Condition

/-- Whatever the conditions and wherever they are asked: all of them are true, false or unknown as their
conjunction is; any of them as the choice between those that demand something, or true if none does; the
opposite of one that demands something as its negation, and otherwise true; both of two as their
conjunction. A statement to which conditions are added demands what it did and all of them; it has no
WHERE clause exactly if none demands anything, and else one that is read, where the columns are named, as
true exactly where all of them are true. -/
theorem connectives_mean (db : Database) (env : Env) (cs : List Condition) (c d : Condition)
    (q : Select) :
    db.truth env (allOf cs) = db.truthAll env cs ∧
    db.truth env (anyOf cs) =
      (if (present cs).isEmpty then some true else db.truthAny env (present cs)) ∧
    db.truth env c.opposite = (if c.isAlways then some true else (db.truth env c).map (!·)) ∧
    db.truth env (c.and d) = both (db.truth env c) (db.truth env d) ∧
    db.truth env (cs.foldl Select.restrict q).condition =
      both (db.truth env q.condition) (db.truthAll env cs) ∧
    (cs.foldl Select.restrict q).condition.isAlways =
      (q.condition.isAlways && cs.all isAlways) ∧
    ∀ dialect, (∀ e ∈ q.condition :: cs, ∀ x ∈ e.exprs, ∃ a n, x.Names a n) →
      (∀ e ∈ q.condition :: cs, e.isAlways = true) ∧
        Select.conditionText dialect (cs.foldl Select.restrict q).condition = "" ∨
      ∃ text p, Select.conditionText dialect (cs.foldl Select.restrict q).condition =
          " WHERE " ++ text ∧
        readBack dialect 0 text (cs.foldl Select.restrict q).params = some p ∧
        ∀ db σ, p.truth db σ = some true ↔
          ∀ e ∈ q.condition :: cs, (db.holding σ).truth σ.env e = some true := by
  have hdemands := Select.isAlways_restrict_foldl cs q
  refine ⟨truth_allOf cs, truth_anyOf cs, truth_opposite c, truth_and c d,
    Select.truth_restrict_foldl cs q, hdemands, fun dialect hnamed => ?_⟩
  cases halways : (cs.foldl Select.restrict q).condition.isAlways with
  | true =>
    rw [halways] at hdemands
    refine .inl ⟨by simpa using hdemands.symm, ?_⟩
    rw [Select.conditionText, halways, if_pos rfl]
  | false =>
    have hexprs : ∀ x ∈ (cs.foldl Select.restrict q).condition.exprs, ∃ a n, x.Names a n := by
      intro x hx
      rw [Select.exprs_restrict_foldl] at hx
      have hx : x ∈ exprsAll (q.condition :: cs) := hx
      obtain ⟨e, he, hx⟩ := exists_of_mem_exprsAll hx
      exact hnamed e he x hx
    obtain ⟨text, p, htext, hread, htruth⟩ := Select.where_means dialect _ hexprs halways
    refine .inr ⟨text, p, htext, hread, fun db σ => ?_⟩
    rw [htruth, Select.truth_restrict_foldl, both_eq_true, Database.truthAll_eq_true,
      List.forall_mem_cons]

/-- A database without tables and with an ordering in which nothing comes before anything. -/
def bareDatabase : Database where
  tuples _ := []
  compare _ _ _ := false
  verbatim _ _ := .null

/-- Two demands on a statement over books, the second of them a choice with a member that demands
nothing. -/
theorem connectives_mean_books :
    let q := Select.ofTable (.named "book") "BOOK1"
    let shown : Condition := .isNotNull (.column "BOOK1" "title")
    let chosen : Condition := anyOf [.always, .isIn (.column "BOOK1" "order") [.str "a", .null]]
    let demanded := [shown, chosen].foldl Select.restrict q
    (∀ e ∈ [q.condition, shown, chosen], ∀ x ∈ e.exprs, ∃ a n, x.Names a n) ∧
    ∃ text p, Select.conditionText .mysql demanded.condition = " WHERE " ++ text ∧
      readBack .mysql 0 text demanded.params = some p ∧
      ∀ db σ, p.truth db σ = some true ↔
        ∀ e ∈ [q.condition, shown, chosen], (db.holding σ).truth σ.env e = some true := by
  intro q shown chosen demanded
  have hnamed : ∀ e ∈ [q.condition, shown, chosen], ∀ x ∈ e.exprs, ∃ a n, x.Names a n := by
    intro e he x hx
    have hx : x ∈ exprsAll [q.condition, shown, chosen] := mem_exprsAll he hx
    have hx : x ∈ [Expr.column "BOOK1" "title", .column "BOOK1" "order"] := hx
    simp only [List.mem_cons, List.not_mem_nil, or_false] at hx
    obtain rfl | rfl := hx
    · exact ⟨_, _, Expr.names_column (by decide) (.inr (by decide))⟩
    · exact ⟨_, _, Expr.names_column (by decide) (.inl (by decide))⟩
  refine ⟨hnamed, ?_⟩
  obtain ⟨-, -, -, -, -, -, hwhere⟩ :=
    connectives_mean bareDatabase Env.empty [shown, chosen] shown chosen q
  obtain ⟨hnothing, -⟩ | hread := hwhere .mysql hnamed
  · cases hnothing shown (by simp)
  · exact hread

/-- A choice between no conditions demands nothing, where it should be false; one that has a member that
demands nothing may be false, where it should be true; and the opposite of demanding nothing is true,
where it should be false. -/
theorem choice_of_none_true :
    let titled : Condition := .isNotNull (.column "BOOK1" "title")
    (bareDatabase.truth Env.empty (anyOf []) = some true ∧
      bareDatabase.truthAny Env.empty [] = some false) ∧
    (bareDatabase.truth Env.empty (anyOf [.always, titled]) = some false ∧
      bareDatabase.truthAny Env.empty [.always, titled] = some true) ∧
    (bareDatabase.truth Env.empty (opposite .always) = some true ∧
      (bareDatabase.truth Env.empty .always).map (!·) = some false) :=
  ⟨⟨rfl, rfl⟩, ⟨rfl, rfl⟩, rfl, rfl⟩

end Condition

end GraphLoad.Sql
