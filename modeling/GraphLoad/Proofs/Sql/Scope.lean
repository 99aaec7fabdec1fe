/-
Statements that know what they speak of: whatever they select, demand or order by is a column of a
table they introduce, and an equality of a join is one of the joined table with a table that stands
before it or with itself. Each step of building a statement keeps this, if what it adds stands under
aliases that are there.
-/
import GraphLoad.Sql.Select

namespace GraphLoad

namespace Sql

/-! ## Expressions -/

/-- Whether an expression is a column of the table that one of some aliases stands for. -/
def Expr.Under (aliases : List String) : Expr → Prop
  | .column aliasName _ => aliasName ∈ aliases
  | .verbatim _ => False

instance (aliases : List String) : DecidablePred (Expr.Under aliases)
  | .column aliasName _ => inferInstanceAs (Decidable (aliasName ∈ aliases))
  | .verbatim _ => inferInstanceAs (Decidable False)

theorem Expr.Under.mono {aliases aliases' : List String} {x : Expr} (h : x.Under aliases)
    (hle : ∀ a ∈ aliases, a ∈ aliases') : x.Under aliases' := by
  cases x with
  | column aliasName name => exact hle aliasName h
  | verbatim text => exact h

namespace Condition

mutual

/-- The expressions that a condition is about. -/
def exprs : Condition → List Expr
  | .always => []
  | .compare _ column _ => [column]
  | .isIn column _ => [column]
  | .notIn column _ => [column]
  | .isNull column => [column]
  | .isNotNull column => [column]
  | .all conditions => exprsAll conditions
  | .any conditions => exprsAll conditions
  | .negation condition => exprs condition

/-- The expressions that some conditions are about. -/
def exprsAll : List Condition → List Expr
  | [] => []
  | c :: cs => exprs c ++ exprsAll cs

end

theorem exprsAll_append (cs ds : List Condition) :
    exprsAll (cs ++ ds) = exprsAll cs ++ exprsAll ds := by
  induction cs with
  | nil => rfl
  | cons c cs ih => simp only [List.cons_append, exprsAll, ih, List.append_assoc]

theorem mem_exprsAll {c : Condition} {cs : List Condition} {x : Expr} (hc : c ∈ cs)
    (hx : x ∈ c.exprs) : x ∈ exprsAll cs := by
  induction hc with
  | head cs => exact List.mem_append_left _ hx
  | tail c' _ ih => exact List.mem_append_right _ ih

theorem exists_of_mem_exprsAll {cs : List Condition} {x : Expr} (hx : x ∈ exprsAll cs) :
    ∃ c ∈ cs, x ∈ c.exprs := by
  induction cs with
  | nil => cases hx
  | cons c cs ih =>
    rcases List.mem_append.1 hx with hx | hx
    · exact ⟨c, List.mem_cons_self .., hx⟩
    · obtain ⟨d, hd, hx⟩ := ih hx
      exact ⟨d, List.mem_cons_of_mem _ hd, hx⟩

theorem exprs_of_isAlways {c : Condition} (h : c.isAlways = true) : c.exprs = [] := by
  cases c <;> simp [isAlways] at h
  rfl

/-- A conjunction is about what its parts are about. -/
theorem exprs_and (c d : Condition) : (c.and d).exprs = c.exprs ++ d.exprs := by
  unfold Condition.and
  split
  · rename_i h
    rw [exprs_of_isAlways h, List.nil_append]
  · split
    · rename_i h
      rw [exprs_of_isAlways h, List.append_nil]
    · split
      · simp only [exprs, exprsAll_append, exprsAll, List.append_nil]
      · simp only [exprs, exprsAll, List.append_nil]

/-- Conditions joined by a connective are about what those that demand something are about. -/
theorem exprs_allOf (cs : List Condition) : (allOf cs).exprs = exprsAll (present cs) := by
  unfold allOf
  split
  · rename_i hnil
    rw [hnil]
    rfl
  · rename_i hone
    rw [hone, exprsAll, exprsAll, List.append_nil]
  · rfl

theorem exprs_anyOf (cs : List Condition) : (anyOf cs).exprs = exprsAll (present cs) := by
  unfold anyOf
  split
  · rename_i hnil
    rw [hnil]
    rfl
  · rename_i hone
    rw [hone, exprsAll, exprsAll, List.append_nil]
  · rfl

theorem exists_of_mem_present {cs : List Condition} {x : Expr} (hx : x ∈ exprsAll (present cs)) :
    ∃ c ∈ cs, x ∈ c.exprs := by
  obtain ⟨c, hc, hx⟩ := exists_of_mem_exprsAll hx
  exact ⟨c, (List.mem_filter.1 hc).1, hx⟩

theorem exprs_predicate (p : Predicate) (column : Expr) : (p.on column).exprs = [column] := by
  unfold Predicate.on
  cases p.operator <;> rfl

end Condition

/-! ## Statements -/

namespace Select

/-- A statement that speaks of tables it introduces, in each join of tables introduced before it and of
the joined one. -/
structure Scoped (q : Select) : Prop where
  columns : ∀ column ∈ q.columns, column.expr.Under q.aliases
  condition : ∀ x ∈ q.condition.exprs, x.Under q.aliases
  order : ∀ term ∈ q.order, term.1.Under q.aliases
  on : ∀ pre j post, q.joins = pre ++ j :: post → ∀ e ∈ j.on, e.1.Under [j.aliasName] ∧
    e.2.Under (j.aliasName :: aliases { q with joins := pre })

variable {q : Select}

@[simp] theorem aliases_addColumn (q : Select) (column : Column) :
    (q.addColumn column).aliases = q.aliases := by
  unfold addColumn
  split <;> rfl

@[simp] theorem aliases_restrict (q : Select) (c : Condition) :
    (q.restrict c).aliases = q.aliases := rfl

@[simp] theorem aliases_orderBy (q : Select) (x : Expr) (direction : Direction) :
    (q.orderBy x direction).aliases = q.aliases := rfl

@[simp] theorem aliases_addJoin (q : Select) (j : Join) :
    (q.addJoin j).aliases = q.aliases ++ [j.aliasName] := by
  simp [aliases, addJoin]

theorem scoped_ofTable (table : Table) (aliasName : String) : (ofTable table aliasName).Scoped :=
  ⟨fun _ h => (nomatch h), fun _ h => (nomatch h), fun _ h => (nomatch h), fun pre j post h => by
    cases pre <;> cases h⟩

theorem Scoped.addColumn (h : q.Scoped) {column : Column} (hcolumn : column.expr.Under q.aliases) :
    (q.addColumn column).Scoped := by
  unfold Select.addColumn
  split
  · exact h
  · refine ⟨fun c hc => ?_, h.condition, h.order, h.on⟩
    rcases List.mem_append.1 hc with hc | hc
    · exact h.columns c hc
    · rw [List.mem_singleton.1 hc]
      exact hcolumn

theorem Scoped.restrict (h : q.Scoped) {c : Condition} (hc : ∀ x ∈ c.exprs, x.Under q.aliases) :
    (q.restrict c).Scoped := by
  refine ⟨h.columns, fun x hx => ?_, h.order, h.on⟩
  have hx : x ∈ (q.condition.and c).exprs := hx
  rw [Condition.exprs_and, List.mem_append] at hx
  exact hx.elim (h.condition x) (hc x)

theorem Scoped.orderBy (h : q.Scoped) {x : Expr} (hx : x.Under q.aliases) (direction : Direction) :
    (q.orderBy x direction).Scoped := by
  refine ⟨h.columns, h.condition, fun term hterm => ?_, h.on⟩
  rcases List.mem_append.1 hterm with hterm | hterm
  · exact h.order term hterm
  · rw [List.mem_singleton.1 hterm]
    exact hx

theorem Scoped.paginate (h : q.Scoped) (page : Page) : (q.paginate page).Scoped :=
  ⟨h.columns, h.condition, h.order, h.on⟩

/-- A join may equate columns of its table with those of tables that stand in the statement already. -/
theorem Scoped.addJoin (h : q.Scoped) {j : Join} (hj : ∀ e ∈ j.on, e.1.Under [j.aliasName] ∧
    e.2.Under (j.aliasName :: q.aliases)) : (q.addJoin j).Scoped := by
  have hgrown : ∀ a ∈ q.aliases, a ∈ (q.addJoin j).aliases := by
    intro a ha
    rw [aliases_addJoin]
    exact List.mem_append_left _ ha
  refine ⟨fun c hc => (h.columns c hc).mono hgrown, fun x hx => (h.condition x hx).mono hgrown,
    fun term hterm => (h.order term hterm).mono hgrown, fun pre k post hsplit => ?_⟩
  rcases List.eq_nil_or_concat post with rfl | ⟨rest, l, rfl⟩
  · -- the join is the new one, and all others stand before it
    obtain ⟨rfl, heq⟩ := List.append_inj' hsplit rfl
    cases heq
    exact hj
  · refine h.on pre k rest ?_
    have hsplit : q.joins ++ [j] = (pre ++ k :: rest) ++ [l] := by
      rw [show q.joins ++ [j] = _ from hsplit]
      simp
    exact (List.append_inj' hsplit rfl).1

end Select

end Sql

end GraphLoad
