/-
What linking counts. Each row finds something of the link that it asks for: nothing, the link itself, or
another object in its place. Main statement: linking that passes over conflicts counts a conflict for
every row that finds another object, and a link for every row that finds nothing; a row whose link is
there is passed over by a collection, but is counted as a link by a property for one object. So only a
collection that is linked again reports nothing.
-/
import GraphLoad.Proofs.Object.Reloading
import GraphLoad.Proofs.Object.Links
import GraphLoad.Proofs.Schema.Conditions

namespace GraphLoad

/-- What there is of a link that is asked for: it is `missing`; it is `settled`, for the source has the
target or there is no source; or the source points at some `other` object. -/
inductive Finding
  | missing
  | settled
  | other
deriving DecidableEq

/-- A row that was hydrated for two aliases. -/
def Row.HasSlots (row : Row) (sourceAlias targetAlias : String) : Prop :=
  (∃ source, row.object sourceAlias = .ok source) ∧ ∃ target, row.object targetAlias = .ok target

namespace Relation

/-- What an object has of a link to a target. -/
def findsOn (r : Relation) (a : Record) (target : Nat) : Finding :=
  if r.isMany then
    if target ∈ a.many r.property then .settled else .missing
  else
    match a.one r.property with
    | none => .missing
    | some held => if held = target then .settled else .other

/-- What a store has of a link. -/
def finds (r : Relation) (s : ObjectStore) (source target : Nat) : Finding :=
  match s.get? source with
  | none => .settled
  | some a => r.findsOn a target

/-- What a store has of the link that a row asks for, if it asks for one. -/
def rowFinds (r : Relation) (sourceAlias targetAlias : String) (s : ObjectStore) (row : Row) :
    Option Finding :=
  (row.ends? sourceAlias targetAlias).map fun (source, target) => r.finds s source target

/-- The store after a row was linked forward, whatever it replaced. -/
def afterRow (r : Relation) (sourceAlias targetAlias : String) (s : ObjectStore) (row : Row) :
    ObjectStore :=
  (leaves (r.linkRow sourceAlias targetAlias none .warn row) { store := s }).store

/-- What every row finds, in the store that the rows before it have left. -/
def findings (r : Relation) (sourceAlias targetAlias : String) : ObjectStore → List Row →
    List (Option Finding)
  | _, [] => []
  | s, row :: rows =>
    r.rowFinds sourceAlias targetAlias s row ::
      r.findings sourceAlias targetAlias (r.afterRow sourceAlias targetAlias s row) rows

/-- Whether a row with this finding is counted as a link. -/
def counts (r : Relation) : Finding → Bool
  | .missing => true
  | .settled => !r.isMany
  | .other => false

variable {r : Relation} {sourceAlias targetAlias : String} {row : Row} {rows : List Row}
  {s : ObjectStore} {a : Record} {i t : Nat}

/-! ## What is found -/

theorem findsOn_many (hmany : r.isMany = true) :
    r.findsOn a t = if t ∈ a.many r.property then .settled else .missing :=
  if_pos hmany

theorem findsOn_one (hmany : r.isMany = false) : r.findsOn a t =
    match a.one r.property with
    | none => .missing
    | some held => if held = t then .settled else .other :=
  if_neg (by rw [hmany]; exact Bool.false_ne_true)

/-- A collection holds no object in another one's place. -/
theorem finds_ne_other (hmany : r.isMany = true) : r.finds s i t ≠ .other := by
  unfold finds
  cases s.get? i with
  | none => exact nofun
  | some a =>
    dsimp only
    rw [findsOn_many hmany]
    split <;> exact nofun

/-- A collection takes in what is missing. -/
theorem linkMany_new (hmany : r.isMany = true) :
    (s.linkMany i r.property t).1 = (r.finds s i t == .missing) := by
  unfold ObjectStore.linkMany finds
  cases s.get? i with
  | none => rfl
  | some a =>
    dsimp only
    rw [ObjectStore.many_initMany, findsOn_many hmany]
    by_cases hmem : t ∈ a.many r.property
    · rw [if_pos (List.contains_iff_mem.2 hmem), if_pos hmem]
      rfl
    · rw [if_neg fun h => hmem (List.contains_iff_mem.1 h), if_neg hmem]
      rfl

/-- A property for one object loses what it holds to a different object. -/
theorem linkOne_loses (hmany : r.isMany = false) :
    (s.linkOne i r.property t).1.isSome = (r.finds s i t == .other) := by
  unfold ObjectStore.linkOne finds
  cases s.get? i with
  | none => rfl
  | some a =>
    dsimp only
    rw [findsOn_one hmany]
    cases a.one r.property with
    | none => rfl
    | some held =>
      dsimp only
      by_cases hheld : held = t
      · rw [if_pos hheld, Option.filter_some, if_neg (by simpa using hheld)]
        rfl
      · rw [if_neg hheld, Option.filter_some, if_pos (by simpa using hheld)]
        rfl

/-! ## One row -/

theorem linkForward_many (hmany : r.isMany = true) (policy : ConflictPolicy) (source target : Nat)
    (l : Links) : r.linkForward policy source (some target) l = .ok ⟨⟩
      (if (l.store.linkMany source r.property target).1
        then Links.count { l with store := (l.store.linkMany source r.property target).2 }
        else { l with store := (l.store.linkMany source r.property target).2 }) := by
  unfold linkForward
  rw [hmany]
  rfl

theorem linkForward_one (hmany : r.isMany = false) (policy : ConflictPolicy) (source target : Nat)
    (l : Links) : r.linkForward policy source (some target) l =
      (match (l.store.linkOne source r.property target).1 with
        | some previous => r.reportConflict policy source previous r.property
        | none => modify Links.count)
        { l with store := (l.store.linkOne source r.property target).2 } := by
  unfold linkForward
  rw [hmany]
  rfl

/-- Giving a source its target is counted by what there is of the link. -/
theorem linkForward_counts (r : Relation) (source target : Nat) (l : Links) :
    ∃ l', r.linkForward .warn source (some target) l = .ok ⟨⟩ l' ∧
      l'.made = l.made + (if r.counts (r.finds l.store source target) then 1 else 0) ∧
      l'.conflicts = l.conflicts + (if r.finds l.store source target == .other then 1 else 0) := by
  cases hmany : r.isMany with
  | true =>
    have hother := finds_ne_other (s := l.store) (i := source) (t := target) hmany
    refine ⟨_, linkForward_many hmany .warn source target l, ?_⟩
    rw [linkMany_new hmany]
    cases hfinds : r.finds l.store source target with
    | missing => exact ⟨rfl, rfl⟩
    | settled => exact ⟨by rw [counts, hmany]; rfl, rfl⟩
    | other => exact (hother hfinds).elim
  | false =>
    have hloses := linkOne_loses (s := l.store) (i := source) (t := target) hmany
    rw [linkForward_one hmany]
    cases hfinds : r.finds l.store source target <;> rw [hfinds] at hloses
    case other =>
      obtain ⟨previous, hprevious⟩ := Option.isSome_iff_exists.1 hloses
      rw [hprevious]
      exact ⟨_, rfl, rfl, rfl⟩
    all_goals
      rw [Option.isNone_iff_eq_none.1 (Option.isSome_eq_false_iff.1 hloses)]
      refine ⟨_, rfl, ?_, rfl⟩
      simp [counts, hmany, Links.count]

/-- Without a way back a row is linked by giving its source the target it has. -/
theorem linkRow_forward {source : Nat} {target : Option Nat} {policy : ConflictPolicy}
    (hsource : row.object sourceAlias = .ok (some source)) (htarget : row.object targetAlias = .ok target)
    (l : Links) :
    r.linkRow sourceAlias targetAlias none policy row l = r.linkForward policy source target l := by
  have hcode : r.linkRow sourceAlias targetAlias none policy row l =
      (r.linkForward policy source target >>= pure) l := by
    unfold linkRow
    rw [hsource, htarget]
    rfl
  rw [hcode, bind_pure]

/-- The objects of a row that has slots for both ends. -/
theorem ends?_of_slots {source target : Option Nat} (hsource : row.object sourceAlias = .ok source)
    (htarget : row.object targetAlias = .ok target) :
    row.ends? sourceAlias targetAlias = source.bind fun i => target.map fun t => (i, t) := by
  unfold Row.ends?
  rw [hsource, htarget]
  cases source <;> cases target <;> rfl

/-- A row is counted by what it finds, and does its writes. -/
theorem linkRow_counts {source target : Option Nat} (hsource : row.object sourceAlias = .ok source)
    (htarget : row.object targetAlias = .ok target) (l : Links) :
    ∃ l', r.linkRow sourceAlias targetAlias none .warn row l = .ok ⟨⟩ l' ∧
      l'.store = l.store.writeAll (r.rowWrites sourceAlias targetAlias none row) ∧
      l'.made = l.made +
        (if (r.rowFinds sourceAlias targetAlias l.store row).any r.counts then 1 else 0) ∧
      l'.conflicts = l.conflicts +
        (if r.rowFinds sourceAlias targetAlias l.store row == some .other then 1 else 0) := by
  have halike : row.Alike [sourceAlias, targetAlias] row :=
    ⟨rfl, by simp [hsource, htarget]⟩
  have hwrites : Ends (fun _ l' => l'.store = l.store.writeAll (r.rowWrites sourceAlias targetAlias none row))
      (fun _ _ => False) (r.linkRow sourceAlias targetAlias none .warn row l) :=
    linkRow_writes halike (List.mem_cons_self ..) (List.mem_cons_of_mem _ (List.mem_singleton_self _)) l
  unfold rowFinds
  rw [ends?_of_slots hsource htarget]
  cases source with
  | none =>
    have hcode : r.linkRow sourceAlias targetAlias none .warn row l = .ok ⟨⟩ l := by
      unfold linkRow
      rw [hsource]
      rfl
    exact ⟨l, hcode, hwrites.ok hcode, rfl, rfl⟩
  | some i =>
    cases target with
    | none =>
      cases hforward : r.linkForward .warn i none l with
      | error e l' => exact ((linkForward_errors reportConflict_warns i none l).error hforward).elim
      | ok _ l' =>
        have hcode := (linkRow_forward hsource htarget l).trans hforward
        refine ⟨l', hcode, hwrites.ok hcode, ?_⟩
        unfold linkForward at hforward
        cases hmany : r.isMany <;> rw [hmany] at hforward <;> cases hforward <;> exact ⟨rfl, rfl⟩
    | some t =>
      obtain ⟨l', hforward, hmade, hconflicts⟩ := linkForward_counts r i t l
      have hcode := (linkRow_forward hsource htarget l).trans hforward
      exact ⟨l', hcode, hwrites.ok hcode, hmade, hconflicts⟩

/-! ## What a row leaves -/

theorem findsOn_many_settled (hmany : r.isMany = true) :
    r.findsOn a t = .settled ↔ t ∈ a.many r.property := by
  rw [findsOn_many hmany]
  split
  · exact iff_of_true rfl ‹_›
  · exact iff_of_false nofun ‹_›

theorem findsOn_one_settled (hmany : r.isMany = false) :
    r.findsOn a t = .settled ↔ a.one r.property = some t := by
  rw [findsOn_one hmany]
  cases a.one r.property with
  | none => exact iff_of_false nofun nofun
  | some held =>
    rw [Option.some.injEq]
    dsimp only
    split
    · exact iff_of_true rfl ‹_›
    · exact iff_of_false nofun ‹_›

theorem finds_of_get? (h : s.get? i = some a) : r.finds s i t = r.findsOn a t := by
  unfold finds
  rw [h]

theorem finds_write (s : ObjectStore) (w : Write) : r.finds (s.write w) i t =
    match s.get? i with
    | none => .settled
    | some a => r.findsOn (w.step i a) t := by
  unfold finds
  rw [ObjectStore.get?_write]
  cases s.get? i <;> rfl

/-- A collection that is given an object has it, and what it had. -/
theorem mem_many_collect {p : String} {j : Nat} {o : Option Nat} :
    t ∈ (Write.step i a (.collect j p o)).many p ↔ t ∈ a.many p ∨ (j = i ∧ o = some t) := by
  show t ∈ Related.collection ((Write.step i a (.collect j p o)).related? p) ↔
    t ∈ Related.collection (a.related? p) ∨ _
  rw [Write.related?_step, Write.stepUnder]
  by_cases hij : j = i
  · obtain ⟨ts, hts, hmem⟩ := Related.collect_eq o (a.related? p)
    rw [if_pos ⟨hij, rfl⟩, Write.value, hts]
    exact (hmem t).trans (by rw [and_iff_right hij])
  · rw [if_neg fun h => hij h.1, or_iff_left fun h => hij h.1]

/-- A property that is given one object holds it. -/
theorem one_point {p : String} {j u : Nat} :
    (Write.step i a (.point j p u)).one p = if j = i then some u else a.one p := by
  show ((Write.step i a (.point j p u)).related? p).bind Related.one? = _
  rw [Write.related?_step, Write.stepUnder]
  by_cases hij : j = i
  · rw [if_pos ⟨hij, rfl⟩, if_pos hij]
    rfl
  · rw [if_neg fun h => hij h.1, if_neg hij]
    rfl

/-- The link that is written is there. -/
theorem finds_written (r : Relation) (s : ObjectStore) (i t : Nat) :
    r.finds (s.writeAll (r.forward i (some t))) i t = .settled := by
  cases hmany : r.isMany
  all_goals
    unfold forward
    rw [hmany]
    refine (finds_write s _).trans ?_
    cases s.get? i with
    | none => rfl
    | some a => ?_
  case false.some => exact (findsOn_one_settled hmany).2 (one_point.trans (if_pos rfl))
  case true.some => exact (findsOn_many_settled hmany).2 (mem_many_collect.2 (.inr ⟨rfl, rfl⟩))

/-- A link that is there stays, unless another object is put in its place. -/
theorem finds_stays {j : Nat} {o : Option Nat} (hsettled : r.finds s i t = .settled)
    (hother : ∀ u, o = some u → r.finds s j u ≠ .other) :
    r.finds (s.writeAll (r.forward j o)) i t = .settled := by
  cases ha : s.get? i with
  | none =>
    have hgone : (s.writeAll (r.forward j o)).get? i = none := by
      rw [ObjectStore.get?_writeAll, ha]
      rfl
    unfold finds
    rw [hgone]
  | some a =>
    rw [finds_of_get? ha] at hsettled
    have hwrite : ∀ w, r.finds (s.writeAll [w]) i t = r.findsOn (w.step i a) t := fun w => by
      rw [show s.writeAll [w] = s.write w from rfl, finds_write, ha]
    unfold forward
    cases hmany : r.isMany <;> cases o
    case false.none => exact (finds_of_get? ha).trans hsettled
    case false.some u =>
      have hone := (findsOn_one_settled hmany).1 hsettled
      refine (hwrite _).trans ((findsOn_one_settled hmany).2 (one_point.trans ?_))
      split
      · rename_i hij
        subst hij
        have hfound := hother u rfl
        rw [finds_of_get? ha, findsOn_one hmany, hone] at hfound
        by_cases htu : t = u
        · rw [htu]
        · exact (hfound (if_neg htu)).elim
      · exact hone
    all_goals
      have hmem := (findsOn_many_settled hmany).1 hsettled
      exact (hwrite _).trans ((findsOn_many_settled hmany).2 (mem_many_collect.2 (.inl hmem)))

/-- A row whose link, if it asks for one, is there. -/
def RowSettled (r : Relation) (sourceAlias targetAlias : String) (s : ObjectStore) (row : Row) : Prop :=
  ∀ f, r.rowFinds sourceAlias targetAlias s row = some f → f = .settled

theorem rowFinds_eq_some {f : Finding} : r.rowFinds sourceAlias targetAlias s row = some f ↔
    ∃ i t, row.object sourceAlias = .ok (some i) ∧ row.object targetAlias = .ok (some t) ∧
      r.finds s i t = f := by
  unfold rowFinds
  rw [Option.map_eq_some_iff]
  constructor
  · rintro ⟨⟨i, t⟩, hends, hf⟩
    obtain ⟨hsource, htarget⟩ := Row.ends?_eq_some.1 hends
    exact ⟨i, t, hsource, htarget, hf⟩
  · rintro ⟨i, t, hsource, htarget, hf⟩
    exact ⟨(i, t), Row.ends?_eq_some.2 ⟨hsource, htarget⟩, hf⟩

/-- Without a way back a row is written by giving its source the target it has. -/
theorem rowWrites_forward {o : Option Nat} (hsource : row.object sourceAlias = .ok (some i))
    (htarget : row.object targetAlias = .ok o) :
    r.rowWrites sourceAlias targetAlias none row = r.forward i o := by
  unfold rowWrites
  rw [hsource, htarget]
  exact List.append_nil _

theorem rowSettled_written (r : Relation) (sourceAlias targetAlias : String) (s : ObjectStore) (row : Row) :
    r.RowSettled sourceAlias targetAlias (s.writeAll (r.rowWrites sourceAlias targetAlias none row))
      row := by
  intro f hf
  obtain ⟨i, t, hsource, htarget, rfl⟩ := rowFinds_eq_some.1 hf
  rw [rowWrites_forward hsource htarget]
  exact finds_written r s i t

theorem RowSettled.stays {row₂ : Row} (h : r.RowSettled sourceAlias targetAlias s row)
    (hslots : row₂.HasSlots sourceAlias targetAlias)
    (hother : r.rowFinds sourceAlias targetAlias s row₂ ≠ some .other) :
    r.RowSettled sourceAlias targetAlias (s.writeAll (r.rowWrites sourceAlias targetAlias none row₂))
      row := by
  intro f hf
  obtain ⟨i, t, hsource, htarget, rfl⟩ := rowFinds_eq_some.1 hf
  have hsettled := h _ (rowFinds_eq_some.2 ⟨i, t, hsource, htarget, rfl⟩)
  obtain ⟨⟨o, hsource₂⟩, o₂, htarget₂⟩ := hslots
  cases o with
  | none =>
    have hnothing : r.rowWrites sourceAlias targetAlias none row₂ = [] := by
      unfold rowWrites
      rw [hsource₂]
    rw [hnothing]
    exact hsettled
  | some j =>
    rw [rowWrites_forward hsource₂ htarget₂]
    refine finds_stays hsettled fun u hu hfound => hother ?_
    exact rowFinds_eq_some.2 ⟨j, u, hsource₂, hu ▸ htarget₂, hfound⟩

/-! ## All rows -/

theorem afterRow_eq (hslots : row.HasSlots sourceAlias targetAlias) :
    r.afterRow sourceAlias targetAlias s row =
      s.writeAll (r.rowWrites sourceAlias targetAlias none row) := by
  obtain ⟨⟨source, hsource⟩, target, htarget⟩ := hslots
  obtain ⟨l, hcode, hstore, -⟩ := linkRow_counts (r := r) hsource htarget { store := s }
  rw [afterRow, (answer_of_ok hcode).2, hstore]

/-- Linking rows ends, does their writes, and counts them by what they find. -/
theorem link_counted (hslots : ∀ row ∈ rows, row.HasSlots sourceAlias targetAlias) (l : Links) :
    ∃ l', r.link sourceAlias targetAlias none .warn rows l = .ok ⟨⟩ l' ∧
      l'.store = l.store.writeAll (rows.flatMap (r.rowWrites sourceAlias targetAlias none)) ∧
      l'.made = l.made +
        (r.findings sourceAlias targetAlias l.store rows).countP (fun f => f.any r.counts) ∧
      l'.conflicts = l.conflicts +
        (r.findings sourceAlias targetAlias l.store rows).count (some .other) := by
  induction rows generalizing l with
  | nil => exact ⟨l, rfl, rfl, rfl, rfl⟩
  | cons row rows ih =>
    have hrow := hslots row (List.mem_cons_self ..)
    obtain ⟨⟨source, hsource⟩, target, htarget⟩ := id hrow
    obtain ⟨l₁, hfirst, hstore₁, hmade₁, hconflicts₁⟩ := linkRow_counts (r := r) hsource htarget l
    obtain ⟨l₂, hrest, hstore₂, hmade₂, hconflicts₂⟩ :=
      ih (fun row' hrow' => hslots row' (List.mem_cons_of_mem _ hrow')) l₁
    refine ⟨l₂, (step_bind_of_ok hfirst _).trans hrest, ?_, ?_, ?_⟩
    · rw [hstore₂, hstore₁, List.flatMap_cons, ObjectStore.writeAll_append]
    · rw [hmade₂, hmade₁, findings, List.countP_cons, afterRow_eq hrow, ← hstore₁]
      omega
    · rw [hconflicts₂, hconflicts₁, findings, List.count_cons, afterRow_eq hrow, ← hstore₁]
      omega

/-- Where no row puts an object in another one's place, every link asked for is there in the end. -/
theorem rowSettled_linked (hslots : ∀ row ∈ rows, row.HasSlots sourceAlias targetAlias)
    (hother : some .other ∉ r.findings sourceAlias targetAlias s rows)
    (hrow : row ∈ rows ∨ r.RowSettled sourceAlias targetAlias s row) :
    r.RowSettled sourceAlias targetAlias
      (s.writeAll (rows.flatMap (r.rowWrites sourceAlias targetAlias none))) row := by
  induction rows generalizing s with
  | nil => exact hrow.resolve_left List.not_mem_nil
  | cons first rows ih =>
    have hfirst := hslots first (List.mem_cons_self ..)
    rw [findings, List.mem_cons, not_or, afterRow_eq hfirst] at hother
    rw [List.flatMap_cons, ObjectStore.writeAll_append]
    refine ih (fun row' hrow' => hslots row' (List.mem_cons_of_mem _ hrow')) hother.2 ?_
    rcases hrow with hrow | hsettled
    · rcases List.mem_cons.1 hrow with rfl | hrow
      · exact .inr (rowSettled_written r sourceAlias targetAlias s _)
      · exact .inl hrow
    · exact .inr (hsettled.stays hfirst (Ne.symm hother.1))

/-- Rows whose links are there find nothing else. -/
theorem findings_settled (hslots : ∀ row ∈ rows, row.HasSlots sourceAlias targetAlias)
    (hsettled : ∀ row ∈ rows, r.RowSettled sourceAlias targetAlias s row) :
    r.findings sourceAlias targetAlias s rows =
      rows.map fun row => (row.ends? sourceAlias targetAlias).map fun _ => .settled := by
  induction rows generalizing s with
  | nil => rfl
  | cons first rows ih =>
    have hfirst := hsettled first (List.mem_cons_self ..)
    have hfound : r.rowFinds sourceAlias targetAlias s first =
        (first.ends? sourceAlias targetAlias).map fun _ => .settled := by
      cases hends : first.ends? sourceAlias targetAlias with
      | none => rw [rowFinds, hends]; rfl
      | some x =>
        rw [RowSettled, rowFinds, hends] at hfirst
        rw [rowFinds, hends]
        exact congrArg some (hfirst _ rfl)
    have hother : r.rowFinds sourceAlias targetAlias s first ≠ some .other :=
      fun h => nomatch hfirst _ h
    have hslot := hslots first (List.mem_cons_self ..)
    rw [findings, List.map_cons, hfound, afterRow_eq hslot]
    refine congrArg _ (ih (fun row hrow => hslots row (List.mem_cons_of_mem _ hrow)) fun row hrow => ?_)
    exact (hsettled row (List.mem_cons_of_mem _ hrow)).stays hslot hother

theorem countP_counts (r : Relation) (fs : List (Option Finding)) : fs.countP (fun f => f.any r.counts) =
    fs.count (some .missing) + if r.isMany then 0 else fs.count (some .settled) := by
  induction fs with
  | nil => cases r.isMany <;> rfl
  | cons f fs ih =>
    rw [List.countP_cons, List.count_cons, List.count_cons, ih]
    cases hmany : r.isMany <;> rcases f with _ | ⟨_ | _ | _⟩ <;> simp [counts, hmany] <;> omega

/-- Linking that passes over conflicts succeeds and counts a conflict for each row that finds another
object, and a link for each that finds nothing. Beyond these a property for one object counts every row
whose link is there, so that the number of links is the number of missing ones just if the relationship
is to many or no row's link was there; and where nothing was in the way, linking the same rows again
changes nothing and reports no conflict, but by a property for one object again as many links as there
are rows with both ends. -/
theorem link_counts (r : Relation) {sourceAlias targetAlias : String} {rows : List Row} (s : ObjectStore)
    (hslots : ∀ row ∈ rows, row.HasSlots sourceAlias targetAlias) :
    ∃ l, r.link sourceAlias targetAlias none .warn rows { store := s } = .ok ⟨⟩ l ∧
      l.conflicts = (r.findings sourceAlias targetAlias s rows).count (some .other) ∧
      l.made = (r.findings sourceAlias targetAlias s rows).count (some .missing) +
        (if r.isMany then 0 else (r.findings sourceAlias targetAlias s rows).count (some .settled)) ∧
      (l.made = (r.findings sourceAlias targetAlias s rows).count (some .missing) ↔
        r.isMany = true ∨ some .settled ∉ r.findings sourceAlias targetAlias s rows) ∧
      (l.conflicts = 0 →
        ∃ l', r.link sourceAlias targetAlias none .warn rows { store := l.store } = .ok ⟨⟩ l' ∧
          l'.store = l.store ∧ l'.conflicts = 0 ∧
          l'.made = if r.isMany then 0
            else rows.countP fun row => (row.ends? sourceAlias targetAlias).isSome) := by
  obtain ⟨l, hlink, hstore, hmade, hconflicts⟩ := link_counted (r := r) hslots { store := s }
  dsimp only at hstore hmade hconflicts
  rw [Nat.zero_add] at hmade hconflicts
  rw [countP_counts] at hmade
  refine ⟨l, hlink, hconflicts, hmade, ?_, fun hnone => ?_⟩
  · rw [hmade, ← List.count_eq_zero]
    cases r.isMany <;> simp
  · rw [hconflicts, List.count_eq_zero] at hnone
    obtain ⟨l', hlink', hstore', hmade', hconflicts'⟩ := link_counted (r := r) hslots { store := l.store }
    dsimp only at hstore' hmade' hconflicts'
    have hsettled : ∀ row ∈ rows, r.RowSettled sourceAlias targetAlias l.store row := fun row hrow => by
      rw [hstore]
      exact rowSettled_linked hslots hnone (.inl hrow)
    rw [Nat.zero_add, findings_settled hslots hsettled] at hmade' hconflicts'
    refine ⟨l', hlink', ?_, ?_, ?_⟩
    · rw [hstore', hstore, ObjectStore.writeAll_twice]
    · rw [hconflicts', List.count_eq_zero]
      simp
    · have hcounts : ∀ row : Row, ((row.ends? sourceAlias targetAlias).map fun _ => Finding.settled).any
          r.counts = (!r.isMany && (row.ends? sourceAlias targetAlias).isSome) := fun row => by
        cases row.ends? sourceAlias targetAlias with
        | none => exact (Bool.and_false _).symm
        | some x => exact (Bool.and_true _).symm
      rw [hmade', List.countP_map]
      simp only [Function.comp_def, hcounts]
      cases r.isMany <;> simp

/-- A book and two authors. -/
def shelf : ObjectStore where
  records := [⟨"BOOK", ⟨[.int 1]⟩, .empty, .empty⟩, ⟨"AUTHOR", ⟨[.int 7]⟩, .empty, .empty⟩,
    ⟨"AUTHOR", ⟨[.int 8]⟩, .empty, .empty⟩]

/-- A row that shows the book beside an author. -/
def beside (author : Nat) : Row :=
  (Row.setObject {} "BOOK1" (some 0)).setObject "AUTHOR2" (some author)

theorem beside_hasSlots (author : Nat) : (beside author).HasSlots "BOOK1" "AUTHOR2" :=
  ⟨⟨some 0, rfl⟩, some author, rfl⟩

/-- The book is given an author, has it, and is given another one: two links and a conflict. -/
theorem link_counts_beside : ∃ r s' l, Schema.relation "BOOK" "AUTHOR1" Schema.bureau = .ok r s' ∧
    r.isMany = false ∧
    r.link "BOOK1" "AUTHOR2" none .warn [beside 1, beside 1, beside 2] { store := shelf } = .ok ⟨⟩ l ∧
    l.made = 2 ∧ l.conflicts = 1 := by
  have hfacts : ((Schema.bureau.relation? "BOOK" "AUTHOR1").any fun r => !r.isMany &&
      r.findings "BOOK1" "AUTHOR2" shelf [beside 1, beside 1, beside 2] =
        [some .missing, some .settled, some .other]) = true := by
    decide +kernel
  obtain ⟨r, hsome, hfacts⟩ := (Option.any_eq_true _ _).1 hfacts
  obtain ⟨s', hrelation⟩ := Schema.relation?_some hsome
  rw [Bool.and_eq_true, Bool.not_eq_true', decide_eq_true_eq] at hfacts
  have hslots : ∀ row ∈ [beside 1, beside 1, beside 2], row.HasSlots "BOOK1" "AUTHOR2" := by
    simp [beside_hasSlots]
  obtain ⟨l, hlink, hconflicts, hmade, -⟩ := link_counts r shelf hslots
  rw [hfacts.2] at hconflicts hmade
  rw [hfacts.1] at hmade
  exact ⟨r, s', l, hrelation, hfacts.1, hlink, hmade, hconflicts⟩

/-- A property for one object counts the link that it has: of two equal rows both are counted as links
made, though the second finds the author there, and linking them again counts both once more. -/
theorem repeated_link_counted : ∃ r s' l l',
    Schema.relation "BOOK" "AUTHOR1" Schema.bureau = .ok r s' ∧
    r.link "BOOK1" "AUTHOR2" none .warn [beside 1, beside 1] { store := shelf } = .ok ⟨⟩ l ∧
    l.conflicts = 0 ∧
    l.made ≠ (r.findings "BOOK1" "AUTHOR2" shelf [beside 1, beside 1]).count (some .missing) ∧
    r.link "BOOK1" "AUTHOR2" none .warn [beside 1, beside 1] { store := l.store } = .ok ⟨⟩ l' ∧
    l'.made ≠ 0 := by
  have hfacts : ((Schema.bureau.relation? "BOOK" "AUTHOR1").any fun r =>
      match r.link "BOOK1" "AUTHOR2" none .warn [beside 1, beside 1] { store := shelf } with
      | .error .. => false
      | .ok _ l =>
        match r.link "BOOK1" "AUTHOR2" none .warn [beside 1, beside 1] { store := l.store } with
        | .error .. => false
        | .ok _ l' => l.conflicts = 0 ∧ l'.made ≠ 0 ∧ l.made ≠
            (r.findings "BOOK1" "AUTHOR2" shelf [beside 1, beside 1]).count (some .missing)) = true := by
    decide +kernel
  obtain ⟨r, hsome, hfacts⟩ := (Option.any_eq_true _ _).1 hfacts
  obtain ⟨s', hrelation⟩ := Schema.relation?_some hsome
  split at hfacts
  · cases hfacts
  · rename_i l hlink
    split at hfacts
    · cases hfacts
    · rename_i l' hagain
      obtain ⟨hconflicts, hmade', hmade⟩ := of_decide_eq_true hfacts
      exact ⟨r, s', l, l', hrelation, hlink, hconflicts, hmade, hagain, hmade'⟩

end Relation

end GraphLoad
