/-
Collections after a load. Main statement: of a property that a plan only writes as a collection, every
object holds exactly the objects that the rows show beside it, each once and where it first came;
whatever the rows are, no link is lost between statements and none comes about by itself.
-/
import GraphLoad.Proofs.Run.Trace

namespace GraphLoad

namespace Plan

variable {t : CommandTree} {cfg : Settings} {s s' : Schema} {plan : Plan} {executor : Executor}
  {rows : List Row} {c : Command} {i target : Nat} {property : String}

/-- A link is asked for by a row with an object for a set and one for the set it is loaded from. -/
theorem mem_linksOf {l : Link} : l ∈ plan.linksOf rows c ↔
    ∃ o p, c.origin = some o ∧ plan.tree.get? o.parent = some p ∧ l.relation = o.relation ∧
      l.back = Relation.backProperty (plan.reverse? c.id) ∧
      ∃ row ∈ rows, row.object p.aliasName = .ok (some l.source) ∧
        row.object c.aliasName = .ok (some l.target) := by
  unfold linksOf
  cases ho : c.origin with
  | none => simp
  | some o =>
    dsimp only
    cases hp : plan.tree.get? o.parent with
    | none => simp [hp]
    | some p =>
      simp only [Relation.links, List.mem_filterMap, Option.map_eq_some_iff]
      constructor
      · rintro ⟨row, hrow, x, hx, rfl⟩
        exact ⟨o, p, rfl, hp, rfl, rfl, row, hrow, Row.ends?_eq_some.1 hx⟩
      · rintro ⟨o', p', ho', hp', hrelation, hback, row, hrow, hends⟩
        cases ho'
        rw [hp] at hp'
        cases hp'
        refine ⟨row, hrow, (l.source, l.target), Row.ends?_eq_some.2 hends, ?_⟩
        cases l
        cases hrelation
        cases hback
        rfl

theorem mem_targetsOf {links : List Link} :
    target ∈ targetsOf (links.flatMap Link.gatherings) i property ↔
      ∃ l ∈ links, l.relation.isMany = true ∧ l.relation.property = property ∧ l.source = i ∧
        l.target = target := by
  unfold targetsOf
  simp only [List.mem_map, List.mem_filter, List.mem_flatMap, decide_eq_true_eq, Link.gatherings]
  constructor
  · rintro ⟨g, ⟨⟨l, hl, hg⟩, hi, hp⟩, rfl⟩
    split at hg
    · rename_i hmany
      rw [List.mem_singleton] at hg
      subst hg
      exact ⟨l, hl, hmany, hp, hi, rfl⟩
    · cases hg
  · rintro ⟨l, hl, hmany, hp, hi, rfl⟩
    refine ⟨⟨l.source, l.relation.property, l.target⟩, ⟨⟨l, hl, ?_⟩, hi, hp⟩, rfl⟩
    rw [if_pos hmany]
    exact List.mem_singleton_self _

/-- Whether a statement of a plan has a row that shows `target` beside the object `i`, for a set that
is loaded along a collection. -/
def Shown (plan : Plan) (executor : Executor) (property : String) (i target : Nat) : Prop :=
  ∃ answer ∈ plan.answers executor, ∃ c ∈ answer.chain.commands.filterMap plan.tree.get?,
    ∃ o p, c.origin = some o ∧ plan.tree.get? o.parent = some p ∧
      o.relation.isMany = true ∧ o.relation.property = property ∧
      ∃ row ∈ answer.rows, row.object p.aliasName = .ok (some i) ∧
        row.object c.aliasName = .ok (some target)

theorem mem_gatherings :
    target ∈ targetsOf (plan.gatherings executor) i property ↔
      plan.Shown executor property i target := by
  unfold gatherings
  rw [mem_targetsOf]
  unfold links Shown answerLinks
  simp only [List.mem_flatMap, mem_linksOf]
  constructor
  · rintro ⟨l, ⟨answer, hanswer, c, hc, o, p, ho, hp, hrelation, -, row, hrow, hsource, htarget⟩,
      hmany, hproperty, rfl, rfl⟩
    rw [hrelation] at hmany hproperty
    exact ⟨answer, hanswer, c, hc, o, p, ho, hp, hmany, hproperty, row, hrow, hsource, htarget⟩
  · rintro ⟨answer, hanswer, c, hc, o, p, ho, hp, hmany, hproperty, row, hrow, hsource, htarget⟩
    exact ⟨⟨o.relation, Relation.backProperty (plan.reverse? c.id), i, target⟩,
      ⟨answer, hanswer, c, hc, o, p, ho, hp, rfl, rfl, row, hrow, hsource, htarget⟩, hmany, hproperty,
      rfl, rfl⟩

/-- Whatever the rows of its statements are, when a plan runs to its end every object of an entity
lists, under a property that no relationship writes for one object of that entity, the objects that
the rows show beside it: without repetition, by statement, set and row where they first came. -/
theorem collections_shown {out : Output} {entity : String} (ht : t.Grown)
    (hmake : make t cfg s = .ok plan s') (hout : (plan.execute executor).result = .ok out)
    (hsingle : (entity, property) ∉ plan.singles) :
    ∀ i a, out.store.get? i = some a → a.entity = entity →
      (a.many property).Nodup ∧
        a.many property = (targetsOf (plan.gatherings executor) i property).eraseDups ∧
        ∀ target, target ∈ a.many property ↔ plan.Shown executor property i target := by
  intro i a ha hentity
  have hwrote := (execute_wrote ht hmake hout).store
  have hmany := hwrote.gathered i a property ha (by rw [hentity]; exact hsingle)
  rw [hmany]
  refine ⟨nodup_eraseDups _, rfl, fun target => ?_⟩
  rw [List.mem_eraseDups]
  exact mem_gatherings

/-- One author, beside whom the second statement shows a book, another one, the first again and
none. -/
def pile : Executor := fun sent =>
  .ok (if sent.length = 1 then [.ofList [("AUTHOR1:id", .int 1)]]
    else [.int 8, .int 7, .int 8, .null].map fun value =>
      .ofList [("AUTHOR1:id", .int 1), ("BOOK2:id", value)])

/-- The author lists each book once, the one of the first row first. -/
theorem collections_shown_pile : ∃ plan s' out a,
    make works {} { catalog := .ofList [author, book] } = .ok plan s' ∧
      (plan.execute pile).result = .ok out ∧ ("AUTHOR", "books") ∉ plan.singles ∧
      out.store.get? 0 = some a ∧ a.entity = "AUTHOR" ∧ a.many "books" = [1, 2] ∧
      (∃ b, out.store.get? 1 = some b ∧ b.key.text = "8") ∧
      ∀ target, target ∈ a.many "books" ↔ plan.Shown pile "books" 0 target := by
  have hran : ((ran? works {} { catalog := .ofList [author, book] } pile).any fun x =>
      decide (("AUTHOR", "books") ∉ x.1.singles) &&
        (x.2.store.get? 0).any (fun a => a.entity = "AUTHOR" ∧ a.many "books" = [1, 2]) &&
        (x.2.store.get? 1).any fun b => b.key.text = "8") = true := by
    decide +kernel
  obtain ⟨⟨plan, out⟩, hsome, hfacts⟩ := (Option.any_eq_true _ _).1 hran
  rw [Bool.and_eq_true, Bool.and_eq_true, decide_eq_true_eq] at hfacts
  obtain ⟨⟨hsingle, hauthor⟩, hbook⟩ := hfacts
  obtain ⟨s', hmake, hout⟩ := ran?_some hsome
  obtain ⟨a, ha, hlists⟩ := (Option.any_eq_true _ _).1 hauthor
  obtain ⟨b, hb, hkey⟩ := (Option.any_eq_true _ _).1 hbook
  rw [decide_eq_true_eq] at hlists hkey
  refine ⟨plan, s', out, a, hmake, hout, hsingle, ha, hlists.1, hlists.2, ⟨b, hb, hkey⟩, ?_⟩
  exact (collections_shown grown_works hmake hout hsingle 0 a ha hlists.1).2.2

end Plan

end GraphLoad
