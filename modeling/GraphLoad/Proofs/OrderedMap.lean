/-
Look-ups in a map against its entries: the value found under a key is that of its one entry, an
inserted pair is found under its key and nothing else changes, and of a list of pairs that agree
where their keys do every pair is found. Maps with the same keys in the same order and the same values
are one. A map made of a list has the keys in the order in which they first came, each with the value that
came last.
-/
import GraphLoad.OrderedMap
import GraphLoad.Proofs.Repetition

namespace GraphLoad

namespace OrderedMap

variable {κ ν : Type} [DecidableEq κ]

theorem mem_of_lookup {k : κ} {v : ν} :
    ∀ {es : List (κ × ν)}, lookup k es = some v → (k, v) ∈ es
  | (k', v') :: es, h => by
    simp only [lookup] at h
    split at h
    · rename_i hk; cases h; rw [hk]; exact List.mem_cons_self ..
    · exact List.mem_cons_of_mem _ (mem_of_lookup h)

theorem lookup_of_mem {k : κ} {v : ν} :
    ∀ {es : List (κ × ν)}, (es.map Prod.fst).Nodup → (k, v) ∈ es → lookup k es = some v
  | (k', v') :: es, hnd, h => by
    rw [List.map_cons, List.nodup_cons] at hnd
    rcases List.mem_cons.1 h with heq | h
    · cases heq; simp [lookup]
    · have hne : k' ≠ k := by
        rintro rfl
        exact hnd.1 (List.mem_map.2 ⟨(k', v), h, rfl⟩)
      rw [lookup, if_neg hne]
      exact lookup_of_mem hnd.2 h

theorem get?_eq_some_iff {m : OrderedMap κ ν} {k : κ} {v : ν} :
    m.get? k = some v ↔ (k, v) ∈ m.entries :=
  ⟨mem_of_lookup, lookup_of_mem m.nodup⟩

theorem get?_insert (m : OrderedMap κ ν) (k : κ) (v : ν) (j : κ) :
    (m.insert k v).get? j = if j = k then some v else m.get? j := by
  by_cases h : j = k
  · subst h; rw [if_pos rfl]; exact get?_insert_self m j v
  · rw [if_neg h]; exact get?_insert_of_ne m h v

@[simp] theorem get?_empty (k : κ) : (empty : OrderedMap κ ν).get? k = none := rfl

/-! ## Entries after a write -/

theorem put_of_not_mem {k : κ} {v : ν} {es : List (κ × ν)} (h : k ∉ es.map Prod.fst) :
    put k v es = es ++ [(k, v)] := by
  induction es with
  | nil => rfl
  | cons e es ih =>
    rw [List.map_cons, List.mem_cons, not_or] at h
    rw [put, if_neg (Ne.symm h.1), ih h.2, List.cons_append]

theorem put_put (k : κ) (v w : ν) (es : List (κ × ν)) : put k w (put k v es) = put k w es := by
  induction es with
  | nil => simp [put]
  | cons e es ih =>
    by_cases h : e.1 = k
    · simp [put, h]
    · simp [put, h, ih]

/-- Of two values written under one key the later one stays. -/
theorem insert_insert (m : OrderedMap κ ν) (k : κ) (v w : ν) :
    (m.insert k v).insert k w = m.insert k w := by
  unfold insert
  congr 1
  exact put_put k v w m.entries

theorem mem_entries_insert {m : OrderedMap κ ν} {k : κ} {v : ν} {e : κ × ν}
    (h : e ∈ (m.insert k v).entries) : e = (k, v) ∨ e ∈ m.entries := by
  obtain ⟨j, w⟩ := e
  rw [← get?_eq_some_iff, get?_insert] at h
  split at h
  · cases h
    rename_i heq
    exact .inl (by rw [heq])
  · exact .inr (get?_eq_some_iff.1 h)

theorem entries_insert_ne_nil (m : OrderedMap κ ν) (k : κ) (v : ν) :
    (m.insert k v).entries ≠ [] := by
  intro h
  have hk := get?_insert_self m k v
  rw [get?_eq_some_iff, h] at hk
  cases hk

theorem entries_insertMany_ne_nil : ∀ {pairs : List (κ × ν)} {m : OrderedMap κ ν}, pairs ≠ [] →
    (m.insertMany pairs).entries ≠ []
  | [], _, h => (h rfl).elim
  | [p], m, _ => entries_insert_ne_nil m p.1 p.2
  | p :: q :: rest, m, _ =>
    entries_insertMany_ne_nil (m := m.insert p.1 p.2) (List.cons_ne_nil q rest)

theorem mem_entries_insertMany {pairs : List (κ × ν)} {m : OrderedMap κ ν} {e : κ × ν}
    (h : e ∈ (m.insertMany pairs).entries) : e ∈ pairs ∨ e ∈ m.entries := by
  induction pairs generalizing m with
  | nil => exact .inr h
  | cons p pairs ih =>
    rcases ih (m := m.insert p.1 p.2) h with hmem | hmem
    · exact .inl (List.mem_cons_of_mem _ hmem)
    · rcases mem_entries_insert hmem with rfl | hold
      · exact .inl (List.mem_cons_self ..)
      · exact .inr hold

/-- Pairs that agree where their keys do are all found. -/
theorem get?_insertMany {pairs : List (κ × ν)}
    (hagree : ∀ p ∈ pairs, ∀ q ∈ pairs, p.1 = q.1 → p.2 = q.2) {k : κ} {v : ν}
    (h : (k, v) ∈ pairs) (m : OrderedMap κ ν) : (m.insertMany pairs).get? k = some v := by
  induction pairs generalizing m with
  | nil => cases h
  | cons p pairs ih =>
    have hrest : ∀ p ∈ pairs, ∀ q ∈ pairs, p.1 = q.1 → p.2 = q.2 := fun p hp q hq =>
      hagree p (List.mem_cons_of_mem _ hp) q (List.mem_cons_of_mem _ hq)
    by_cases hmem : (k, v) ∈ pairs
    · exact ih hrest hmem _
    · rcases List.mem_cons.1 h with rfl | h
      · -- the pair is the last one under its key, so that nothing overwrites it
        have hkeep : ∀ (qs : List (κ × ν)) (m : OrderedMap κ ν), (∀ q ∈ qs, q.1 ≠ k) →
            (m.insertMany qs).get? k = m.get? k := by
          intro qs
          induction qs with
          | nil => exact fun m _ => rfl
          | cons q qs ihq =>
            intro m hne
            show ((m.insert q.1 q.2).insertMany qs).get? k = _
            rw [ihq _ fun r hr => hne r (List.mem_cons_of_mem _ hr),
              get?_insert_of_ne _ (Ne.symm (hne q (List.mem_cons_self ..)))]
        show ((m.insert k v).insertMany pairs).get? k = _
        rw [hkeep, get?_insert_self]
        intro q hq heq
        have hv := hagree _ (List.mem_cons_self ..) q (List.mem_cons_of_mem _ hq) heq.symm
        exact hmem (by rw [show (k, v) = q from Prod.ext heq.symm hv]; exact hq)
      · exact (hmem h).elim

/-- So a map of such pairs has no other entries. -/
theorem mem_entries_ofList {pairs : List (κ × ν)}
    (hagree : ∀ p ∈ pairs, ∀ q ∈ pairs, p.1 = q.1 → p.2 = q.2) (e : κ × ν) :
    e ∈ (ofList pairs).entries ↔ e ∈ pairs := by
  constructor
  · intro h
    exact (mem_entries_insertMany h).resolve_right List.not_mem_nil
  · intro h
    exact get?_eq_some_iff.1 (get?_insertMany hagree h empty)

/-! ## Keys in their order -/

theorem eq_of_keys {m m' : OrderedMap κ ν} (hkeys : m.keys = m'.keys)
    (hget : ∀ k, m.get? k = m'.get? k) : m = m' := by
  have hentries : ∀ m : OrderedMap κ ν, m.entries.map some = m.keys.map fun k =>
      (m.get? k).map fun v => (k, v) := by
    intro m
    rw [keys, List.map_map]
    refine List.map_congr_left fun e he => ?_
    rw [Function.comp_apply, get?_eq_some_iff.2 (show (e.1, e.2) ∈ m.entries from he)]
    rfl
  have hsome : m.entries.map some = m'.entries.map some := by
    rw [hentries, hentries, hkeys]
    exact List.map_congr_left fun k _ => by rw [hget]
  have hsame := (List.map_inj_right fun _ _ h => Option.some.inj h).1 hsome
  cases m
  cases m'
  cases hsame
  rfl

theorem insert_keys_of_mem {m : OrderedMap κ ν} {k : κ} (h : k ∈ m.keys) (v : ν) :
    (m.insert k v).keys = m.keys := by
  rw [keys_insert, if_pos h]

theorem mem_keys_insert {m : OrderedMap κ ν} {j k : κ} {v : ν} :
    j ∈ (m.insert k v).keys ↔ j = k ∨ j ∈ m.keys := by
  rw [keys_insert]
  split
  · rename_i hk
    exact ⟨.inr, fun h => h.elim (fun heq => heq ▸ hk) id⟩
  · rw [List.mem_append, List.mem_singleton, or_comm]

/-- A value that is there already changes nothing when it is written again. -/
theorem insert_of_get? {m : OrderedMap κ ν} {k : κ} {v : ν} (h : m.get? k = some v) :
    m.insert k v = m := by
  refine eq_of_keys (insert_keys_of_mem ?_ v) fun j => ?_
  · rw [← contains_iff_mem_keys, contains, h]
    rfl
  · rw [get?_insert]
    split
    · rename_i heq
      rw [heq, h]
    · rfl

theorem get?_insertMany_foldl (m : OrderedMap κ ν) (pairs : List (κ × ν)) (k : κ) :
    (m.insertMany pairs).get? k =
      pairs.foldl (fun o p => if p.1 = k then some p.2 else o) (m.get? k) := by
  induction pairs generalizing m with
  | nil => rfl
  | cons p pairs ih =>
    show ((m.insert p.1 p.2).insertMany pairs).get? k = _
    rw [ih, get?_insert, List.foldl_cons]
    simp only [eq_comm]

theorem mem_keys_insertMany {m : OrderedMap κ ν} {pairs : List (κ × ν)} {k : κ} :
    k ∈ (m.insertMany pairs).keys ↔ k ∈ pairs.map Prod.fst ∨ k ∈ m.keys := by
  induction pairs generalizing m with
  | nil => simp [insertMany]
  | cons p pairs ih =>
    show k ∈ ((m.insert p.1 p.2).insertMany pairs).keys ↔ _
    rw [ih, mem_keys_insert, List.map_cons, List.mem_cons, or_assoc, or_left_comm]

theorem keys_insertMany_of_mem {m : OrderedMap κ ν} {pairs : List (κ × ν)}
    (h : ∀ p ∈ pairs, p.1 ∈ m.keys) : (m.insertMany pairs).keys = m.keys := by
  induction pairs generalizing m with
  | nil => rfl
  | cons p pairs ih =>
    have hfirst := insert_keys_of_mem (h p (List.mem_cons_self ..)) p.2
    show ((m.insert p.1 p.2).insertMany pairs).keys = _
    rw [ih fun q hq => by rw [hfirst]; exact h q (List.mem_cons_of_mem _ hq), hfirst]

theorem insertMany_append (m : OrderedMap κ ν) (ps qs : List (κ × ν)) :
    m.insertMany (ps ++ qs) = (m.insertMany ps).insertMany qs :=
  List.foldl_append ..

/-! ## A map against the list it was made of -/

theorem insertMany_snoc (m : OrderedMap κ ν) (pairs : List (κ × ν)) (p : κ × ν) :
    m.insertMany (pairs ++ [p]) = (m.insertMany pairs).insert p.1 p.2 :=
  insertMany_append m pairs [p]

/-- Keys stand in the order in which they first came. -/
theorem keys_ofList (pairs : List (κ × ν)) : (ofList pairs).keys = (pairs.map Prod.fst).eraseDups := by
  induction pairs using List.reverseRecOn with
  | nil => rfl
  | append_singleton pairs p ih =>
    rw [ofList, insertMany_snoc, keys_insert, List.map_append, List.map_singleton, eraseDups_snoc, ← ih]
    rfl

/-- Under a key stands the last of the values that came with it. -/
theorem get?_ofList (pairs : List (κ × ν)) (k : κ) :
    (ofList pairs).get? k = ((pairs.filter fun p => p.1 = k).getLast?).map Prod.snd := by
  induction pairs using List.reverseRecOn with
  | nil => rfl
  | append_singleton pairs p ih =>
    rw [ofList, insertMany_snoc, get?_insert, List.filter_append]
    by_cases h : k = p.1
    · subst h
      simp
    · rw [if_neg h, show (empty.insertMany pairs).get? k = _ from ih]
      simp [Ne.symm h]

end OrderedMap

end GraphLoad
