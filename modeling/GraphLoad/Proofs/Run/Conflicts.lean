/-
Conflicting links. The writes to properties for one object come from rows, sets and statements that
know nothing of each other, and each is only compared with what its property holds at that moment.
Main statements: the last write to a property stays, and exactly those that replaced another object
are warned of; and under the strict policy a load whose statements are answered fails for a conflict
exactly if two writes disagree, whichever comes first.
-/
import GraphLoad.Proofs.Run.Collections
import GraphLoad.Proofs.Run.Supply

namespace GraphLoad

/-- A property for one object, in a store that was written. -/
theorem ObjectStore.Wrote.one {singles collections : List (String × String)} {gs : List Gathering}
    {ps : List Pointing} {s : ObjectStore} (h : s.Wrote singles collections gs ps)
    (hparted : ∀ p ∈ singles, p ∉ collections) {i : Nat} {a : Record} {property : String}
    (ha : s.get? i = some a) (hsingle : (a.entity, property) ∈ singles) :
    a.one property = lastTarget ps i property ∧
      (a.isLoaded property = false ↔ ∀ w ∈ ps, w.object = i → w.property ≠ property) := by
  have hrelated := h.pointed i a property ha (hparted _ hsingle)
  constructor
  · rw [Record.one, hrelated]
    cases lastTarget ps i property <;> rfl
  · rw [Record.isLoaded, hrelated, Option.isSome_map, Option.isSome_eq_false_iff,
      Option.isNone_iff_eq_none]
    exact lastTarget_eq_none

namespace Plan

variable {t : CommandTree} {cfg : Settings} {s s' : Schema} {plan : Plan} {executor : Executor}

/-! ## Writes that replace others -/

/-- When a plan runs to its end, every property for one object holds what the last write to it asked
for, and was never loaded if no row writes it; the warnings are those of the writes that replaced
another object, in the order of the writes, each with the object it replaced. -/
theorem last_write_stays {out : Output} (ht : t.Grown) (hmake : make t cfg s = .ok plan s')
    (hparted : ∀ p ∈ plan.singles, p ∉ plan.collections)
    (hout : (plan.execute executor).result = .ok out) :
    (∀ i a property, out.store.get? i = some a → (a.entity, property) ∈ plan.singles →
      a.one property = lastTarget (plan.pointings executor) i property ∧
        (a.isLoaded property = false ↔
          ∀ w ∈ plan.pointings executor, w.object = i → w.property ≠ property)) ∧
      (plan.execute executor).warnings =
        (overwrites (plan.pointings executor)).map out.store.warning := by
  have hwrote := execute_wrote ht hmake hout
  constructor
  · intro i a property ha hsingle
    exact hwrote.store.one hparted ha hsingle
  · have hwarnings := hwrote.warnings hparted
    rw [List.append_nil] at hwarnings
    exact hwarnings

/-- Two authors, beside whom the second statement shows one book: the first, and then the second
twice. -/
def claimants : Executor := fun sent =>
  .ok (if sent.length = 1 then [.ofList [("AUTHOR1:id", .int 1)], .ofList [("AUTHOR1:id", .int 2)]]
    else [.int 1, .int 2, .int 2].map fun value =>
      .ofList [("AUTHOR1:id", value), ("BOOK2:id", .int 7)])

/-- The second author stays, and there is one warning. -/
theorem last_write_stays_claimants : ∃ plan s' out b,
    make works {} { catalog := .ofList [author, book] } = .ok plan s' ∧
      (plan.execute claimants).result = .ok out ∧
      (∀ p ∈ plan.singles, p ∉ plan.collections) ∧ ("BOOK", "author") ∈ plan.singles ∧
      out.store.get? 2 = some b ∧ b.entity = "BOOK" ∧ b.one "author" = some 1 ∧
      (plan.execute claimants).warnings = [⟨"BOOKS", "BOOK#7", "author", "AUTHOR#1"⟩] := by
  have hran : ((ran? works {} { catalog := .ofList [author, book] } claimants).any fun x =>
      decide (∀ p ∈ x.1.singles, p ∉ x.1.collections) &&
        decide (("BOOK", "author") ∈ x.1.singles) &&
        decide (lastTarget (x.1.pointings claimants) 2 "author" = some 1) &&
        decide ((overwrites (x.1.pointings claimants)).map x.2.store.warning =
          [⟨"BOOKS", "BOOK#7", "author", "AUTHOR#1"⟩]) &&
        (x.2.store.get? 2).any fun b => b.entity = "BOOK") = true := by
    decide +kernel
  obtain ⟨⟨plan, out⟩, hsome, hfacts⟩ := (Option.any_eq_true _ _).1 hran
  simp only [Bool.and_eq_true, decide_eq_true_eq] at hfacts
  obtain ⟨⟨⟨⟨hparted, hsingle⟩, hlast⟩, hreplaced⟩, hbook⟩ := hfacts
  obtain ⟨s', hmake, hout⟩ := ran?_some hsome
  obtain ⟨b, hb, hentity⟩ := (Option.any_eq_true _ _).1 hbook
  have hentity : b.entity = "BOOK" := of_decide_eq_true hentity
  obtain ⟨hstays, hwarnings⟩ := last_write_stays grown_works hmake hparted hout
  refine ⟨plan, s', out, b, hmake, hout, hparted, hsingle, hb, hentity, ?_, ?_⟩
  · exact (hstays 2 b "author" hb (hentity ▸ hsingle)).1.trans hlast
  · exact hwarnings.trans hreplaced

/-! ## Writes that disagree -/

/-- A plan whose statements are answered in full does not stop before its rows are linked. -/
theorem Supplies.not_unanswered {e : LoadError} (ht : t.Grown) (hmake : make t cfg s = .ok plan s')
    (hsupplies : plan.Supplies executor) :
    ¬ Run.Unanswered executor plan t plan.chains (.before t) e := by
  obtain ⟨-, hmade⟩ := make_ok (P := fun _ => True) (fun _ _ _ _ _ _ => trivial) trivial hmake
  rintro ⟨pre, chain, post, run, run', hsplit, hpre, hstocked, hstops⟩
  have hchain : chain ∈ plan.chains := hsplit ▸ List.mem_append_right _ (List.mem_cons_self ..)
  obtain ⟨found, run'', hfetch⟩ := Run.fetch_total ht.ordered hmade hchain hstocked
    fun query hquery => hsupplies pre chain post run query hsplit (hmade.tree ▸ hpre) hquery
  rw [hfetch] at hstops
  cases hstops

/-- Under the strict policy, a plan whose statements are answered in full fails for a conflict
exactly if two of the writes that the rows ask for give one property of an object two different
objects; and when it runs to its end, every object that was written is still there. -/
theorem strict_conflict (ht : t.Grown) (hmake : make t cfg s = .ok plan s')
    (hstrict : cfg.conflicts = .error) (hparted : ∀ p ∈ plan.singles, p ∉ plan.collections)
    (hsupplies : plan.Supplies executor) :
    ((∃ e, (plan.execute executor).result = .error e ∧ e.code = .conflictingLink) ↔
        Disagree (plan.pointings executor)) ∧
      ∀ out, (plan.execute executor).result = .ok out → ∀ w ∈ plan.pointings executor,
        ∃ a, out.store.get? w.object = some a ∧ a.one w.property = some w.target := by
  have hfailed : ∀ e, (plan.execute executor).result = .error e →
      e.code = .conflictingLink ∧ Disagree (plan.pointings executor) := by
    intro e herror
    rcases execute_failed ht hmake herror with htells | hstops
    · exact ⟨htells.1, htells.2 hparted⟩
    · exact (hsupplies.not_unanswered ht hmake hstops).elim
  -- what was never replaced stays, so that a run which ends has only writes that agree
  have hnone : ∀ out, (plan.execute executor).result = .ok out →
      overwrites (plan.pointings executor) = [] :=
    fun out hout => (execute_wrote ht hmake hout).strict hparted hstrict
  refine ⟨⟨?_, ?_⟩, ?_⟩
  · rintro ⟨e, herror, -⟩
    exact (hfailed e herror).2
  · intro hdisagree
    cases hresult : (plan.execute executor).result with
    | ok out => exact (overwrites_ne_nil.2 hdisagree (hnone out hresult)).elim
    | error e => exact ⟨e, rfl, (hfailed e hresult).1⟩
  · intro out hout w hw
    have hwrote := (execute_wrote ht hmake hout).store
    obtain ⟨⟨entity, ⟨a, ha, rfl⟩, hsingle⟩, -⟩ := hwrote.owned w hw
    refine ⟨a, ha, ?_⟩
    rw [(hwrote.one hparted ha hsingle).1]
    exact lastTarget_of_overwrites (hnone out hout) hw

/-- The rows of a list, each completed by nulls to the labels of its statement. -/
def completing (rows : List (List (String × Value))) : Executor := fun sent =>
  .ok (rows.map fun cells => .ofList
    (((sent.getLast?.map Sql.Statement.labels).getD []).map fun text =>
      (text, (OrderedMap.lookup text cells).getD .null)))

theorem supplies_completing (plan : Plan) (rows : List (List (String × Value))) :
    plan.Supplies (completing rows) := by
  intro pre chain post run query _ _ _
  refine ⟨_, rfl, ?_⟩
  intro row hrow text htext
  obtain ⟨cells, -, rfl⟩ := List.mem_map.1 hrow
  rw [List.getLast?_append, List.getLast?_singleton, Option.some_or, Option.map_some,
    Option.getD_some]
  refine Option.isSome_iff_exists.2 ⟨(OrderedMap.lookup text cells).getD .null, ?_⟩
  apply OrderedMap.get?_insertMany
  · simp only [List.mem_map]
    rintro _ ⟨a, -, rfl⟩ _ ⟨b, -, rfl⟩ (rfl : a = b)
    rfl
  · exact List.mem_map.2 ⟨text, htext, rfl⟩

/-- One book beside two authors. -/
def quarrel : Executor := completing
  [[("AUTHOR1:id", .int 1), ("BOOK2:id", .int 7)], [("AUTHOR1:id", .int 2), ("BOOK2:id", .int 7)]]

/-- A book cannot have both as its author, which the second statement brings to light. -/
theorem strict_conflict_quarrel : ∃ plan s' e,
    make works { conflicts := .error } { catalog := .ofList [author, book] } = .ok plan s' ∧
      (∀ p ∈ plan.singles, p ∉ plan.collections) ∧ plan.Supplies quarrel ∧
      (plan.execute quarrel).result = .error e ∧ e.code = .conflictingLink := by
  have hmade : ((made? works { conflicts := .error } { catalog := .ofList [author, book] }).any
      fun plan => decide (∀ p ∈ plan.singles, p ∉ plan.collections) &&
        decide (Disagree (plan.pointings quarrel))) = true := by
    decide +kernel
  obtain ⟨plan, hsome, hfacts⟩ := (Option.any_eq_true _ _).1 hmade
  rw [Bool.and_eq_true, decide_eq_true_eq, decide_eq_true_eq] at hfacts
  obtain ⟨s', hmake⟩ := made?_some hsome
  have hsupplies : plan.Supplies quarrel := supplies_completing plan _
  obtain ⟨e, herror, hcode⟩ :=
    (strict_conflict grown_works hmake rfl hfacts.1 hsupplies).1.2 hfacts.2
  exact ⟨plan, s', e, hmake, hfacts.1, hsupplies, herror, hcode⟩

end Plan

end GraphLoad
