/-
What statements speak of: the tables they introduce, the aliases of these, and the expressions of their
clauses. Each step of building a statement keeps it speaking of tables, aliases and expressions of some
kind, if what it adds is of that kind.
-/
import GraphLoad.Proofs.Sql.Scope

namespace GraphLoad.Sql

namespace Select

/-- The tables of a statement, in order. -/
def tables (q : Select) : List Table := (q.source.map (·.1)).toList ++ q.joins.map (·.table)

/-- The expressions of a statement, clause by clause. -/
def exprs (q : Select) : List Expr :=
  q.columns.map (·.expr) ++ (q.joins.flatMap fun j => j.on.flatMap fun e => [e.1, e.2]) ++
    q.condition.exprs ++ q.order.map (·.1)

/-- A statement that only speaks of tables, aliases and expressions of some kind. -/
structure Speaks (P : Table → Prop) (A : String → Prop) (X : Expr → Prop) (q : Select) : Prop where
  tables : ∀ table ∈ q.tables, P table
  aliases : ∀ a ∈ q.aliases, A a
  exprs : ∀ x ∈ q.exprs, X x

variable {P : Table → Prop} {A : String → Prop} {X : Expr → Prop} {q : Select}

theorem mem_exprs {x : Expr} : x ∈ q.exprs ↔ (∃ c ∈ q.columns, c.expr = x) ∨
    (∃ j ∈ q.joins, ∃ e ∈ j.on, x = e.1 ∨ x = e.2) ∨ x ∈ q.condition.exprs ∨
    ∃ term ∈ q.order, term.1 = x := by
  simp [exprs]

/-- In particular its joins do. -/
theorem Speaks.join (h : q.Speaks P A X) {j : Join} (hj : j ∈ q.joins) :
    P j.table ∧ A j.aliasName ∧ ∀ e ∈ j.on, X e.1 ∧ X e.2 := by
  refine ⟨h.tables _ (List.mem_append_right _ (List.mem_map_of_mem hj)),
    h.aliases _ (List.mem_append_right _ (List.mem_map_of_mem hj)), fun e he => ?_⟩
  have hexprs : ∀ x ∈ [e.1, e.2], X x := fun x hx => by
    refine h.exprs x (List.mem_append_left _ (List.mem_append_left _ (List.mem_append_right _ ?_)))
    exact List.mem_flatMap.2 ⟨j, hj, List.mem_flatMap.2 ⟨e, he, hx⟩⟩
  exact ⟨hexprs _ (by simp), hexprs _ (by simp)⟩

/-! ## Building statements -/

theorem speaks_ofTable {table : Table} {a : String} (ht : P table) (ha : A a) :
    (ofTable table a).Speaks P A X := by
  refine ⟨fun t h => ?_, fun b h => ?_, fun x h => ?_⟩
  · rw [List.mem_singleton.1 h]
    exact ht
  · rw [List.mem_singleton.1 h]
    exact ha
  · cases h

theorem Speaks.addColumn (h : q.Speaks P A X) {c : Column} (hc : X c.expr) :
    (q.addColumn c).Speaks P A X := by
  unfold Select.addColumn
  split
  · exact h
  · refine ⟨h.tables, h.aliases, fun x hx => ?_⟩
    rcases mem_exprs.1 hx with ⟨c', hc', rfl⟩ | hx
    · rcases List.mem_append.1 hc' with hc' | hc'
      · exact h.exprs _ (mem_exprs.2 (.inl ⟨c', hc', rfl⟩))
      · rw [List.mem_singleton.1 hc']
        exact hc
    · exact h.exprs x (mem_exprs.2 (.inr hx))

theorem Speaks.restrict (h : q.Speaks P A X) {c : Condition} (hc : ∀ x ∈ c.exprs, X x) :
    (q.restrict c).Speaks P A X := by
  refine ⟨h.tables, h.aliases, fun x hx => ?_⟩
  rcases mem_exprs.1 hx with hx | hx | hx | hx
  · exact h.exprs x (mem_exprs.2 (.inl hx))
  · exact h.exprs x (mem_exprs.2 (.inr (.inl hx)))
  · have hx : x ∈ (q.condition.and c).exprs := hx
    rw [Condition.exprs_and, List.mem_append] at hx
    rcases hx with hx | hx
    · exact h.exprs x (mem_exprs.2 (.inr (.inr (.inl hx))))
    · exact hc x hx
  · exact h.exprs x (mem_exprs.2 (.inr (.inr (.inr hx))))

theorem Speaks.orderBy (h : q.Speaks P A X) {x : Expr} (hx : X x) (direction : Direction) :
    (q.orderBy x direction).Speaks P A X := by
  refine ⟨h.tables, h.aliases, fun y hy => ?_⟩
  rcases mem_exprs.1 hy with hy | hy | hy | ⟨term, hterm, rfl⟩
  · exact h.exprs y (mem_exprs.2 (.inl hy))
  · exact h.exprs y (mem_exprs.2 (.inr (.inl hy)))
  · exact h.exprs y (mem_exprs.2 (.inr (.inr (.inl hy))))
  · rcases List.mem_append.1 hterm with hterm | hterm
    · exact h.exprs _ (mem_exprs.2 (.inr (.inr (.inr ⟨term, hterm, rfl⟩))))
    · rw [List.mem_singleton.1 hterm]
      exact hx

theorem Speaks.paginate (h : q.Speaks P A X) (page : Page) : (q.paginate page).Speaks P A X :=
  ⟨h.tables, h.aliases, h.exprs⟩

theorem Speaks.addJoin (h : q.Speaks P A X) {j : Join} (ht : P j.table) (ha : A j.aliasName)
    (hon : ∀ e ∈ j.on, X e.1 ∧ X e.2) : (q.addJoin j).Speaks P A X := by
  refine ⟨fun table hmem => ?_, fun a hmem => ?_, fun x hx => ?_⟩
  · simp only [Select.tables, Select.addJoin, List.map_append, List.map_singleton, ← List.append_assoc,
      List.mem_append, List.mem_singleton] at hmem
    rcases hmem with hmem | rfl
    · exact h.tables table (List.mem_append.2 hmem)
    · exact ht
  · rw [aliases_addJoin, List.mem_append, List.mem_singleton] at hmem
    rcases hmem with hmem | rfl
    · exact h.aliases a hmem
    · exact ha
  · rcases mem_exprs.1 hx with hx | ⟨k, hk, e, he, hx⟩ | hx
    · exact h.exprs x (mem_exprs.2 (.inl hx))
    · rcases List.mem_append.1 hk with hk | hk
      · exact h.exprs x (mem_exprs.2 (.inr (.inl ⟨k, hk, e, he, hx⟩)))
      · rw [List.mem_singleton.1 hk] at he
        rcases hx with rfl | rfl
        · exact (hon e he).1
        · exact (hon e he).2
    · exact h.exprs x (mem_exprs.2 (.inr (.inr hx)))

end Select

end GraphLoad.Sql
