/-
Computations that may fail, as they are used for statements, schemas and runs: what a computation
that succeeded went through, step by step, and which properties its steps carry to its end.
-/
import GraphLoad.Entity.Selection
import Mathlib.Data.List.Forall2

namespace GraphLoad

/-! ## Results -/

theorem except_bind_ok {ε α β : Type} {x : Except ε α} {f : α → Except ε β} {b : β}
    (h : x >>= f = .ok b) : ∃ a, x = .ok a ∧ f a = .ok b := by
  cases x with
  | error e => cases h
  | ok a => exact ⟨a, rfl, h⟩

theorem except_bind_error {ε α β : Type} {x : Except ε α} {f : α → Except ε β} {e : ε}
    (h : x >>= f = .error e) : x = .error e ∨ ∃ a, x = .ok a ∧ f a = .error e := by
  cases x with
  | error e' =>
    cases h
    exact .inl rfl
  | ok a => exact .inr ⟨a, rfl, h⟩

theorem except_ok_bind {ε α β : Type} (a : α) (f : α → Except ε β) : (.ok a >>= f) = f a := rfl

theorem except_map_ok {ε α β : Type} {x : Except ε α} {f : α → β} {b : β}
    (h : x.map f = .ok b) : ∃ a, x = .ok a ∧ f a = b := by
  cases x with
  | error e => cases h
  | ok a => cases h; exact ⟨a, rfl, rfl⟩

theorem except_map_error {ε α β : Type} {x : Except ε α} {f : α → β} {e : ε}
    (h : x.map f = .error e) : x = .error e := by
  cases x with
  | error e' => cases h; rfl
  | ok a => cases h

theorem except_toOption_some {ε α : Type} {x : Except ε α} {a : α} (h : x.toOption = some a) :
    x = .ok a := by
  cases x with
  | error e => cases h
  | ok b => cases h; rfl

/-- Mapping a list succeeds only through a result for each of its members. -/
theorem except_mapM_ok {ε α β : Type} (f : α → Except ε β) :
    ∀ {xs : List α} {ys : List β}, xs.mapM f = .ok ys → List.Forall₂ (fun x y => f x = .ok y) xs ys
  | [], ys, h => by
    rw [List.mapM_nil] at h
    cases h
    exact .nil
  | x :: xs, ys, h => by
    rw [List.mapM_cons] at h
    obtain ⟨y, hy, h⟩ := except_bind_ok h
    obtain ⟨ys', hys, h⟩ := except_bind_ok h
    cases h
    exact .cons hy (except_mapM_ok f hys)

/-! ## Lists that match member by member -/

theorem forall₂_mem_left {α β : Type} {R : α → β → Prop} :
    ∀ {xs : List α} {ys : List β}, List.Forall₂ R xs ys → ∀ x ∈ xs, ∃ y ∈ ys, R x y
  | _ :: _, _ :: _, .cons hxy h, z, hz => by
    rcases List.mem_cons.1 hz with rfl | hz
    · exact ⟨_, List.mem_cons_self .., hxy⟩
    · obtain ⟨y, hy, hR⟩ := forall₂_mem_left h z hz
      exact ⟨y, List.mem_cons_of_mem _ hy, hR⟩

theorem forall₂_mem_right {α β : Type} {R : α → β → Prop} {xs : List α} {ys : List β}
    (h : List.Forall₂ R xs ys) : ∀ y ∈ ys, ∃ x ∈ xs, R x y :=
  forall₂_mem_left h.flip

theorem forall₂_getElem? {α β : Type} {R : α → β → Prop} :
    ∀ {xs : List α} {ys : List β}, List.Forall₂ R xs ys → ∀ {i : Nat} {x : α} {y : β},
      xs[i]? = some x → ys[i]? = some y → R x y
  | _ :: _, _ :: _, .cons hxy h, i, x, y, hx, hy => by
    cases i with
    | zero => cases hx; cases hy; exact hxy
    | succ i => exact forall₂_getElem? h hx hy

/-! ## Steps with a state -/

variable {σ α β : Type}

theorem step_bind_ok {x : EStateM LoadError σ α} {f : α → EStateM LoadError σ β} {s s' : σ} {b : β}
    (h : (x >>= f) s = .ok b s') : ∃ a s₁, x s = .ok a s₁ ∧ f a s₁ = .ok b s' := by
  change EStateM.bind x f s = _ at h
  unfold EStateM.bind at h
  cases hx : x s with
  | error e s₁ => rw [hx] at h; cases h
  | ok a s₁ => rw [hx] at h; exact ⟨a, s₁, rfl, h⟩

theorem step_bind_of_ok {x : EStateM LoadError σ α} {s s' : σ} {a : α} (h : x s = .ok a s')
    (f : α → EStateM LoadError σ β) : (x >>= f) s = f a s' := by
  change EStateM.bind x f s = _
  unfold EStateM.bind
  rw [h]

theorem step_bind_of_error {x : EStateM LoadError σ α} {s s' : σ} {e : LoadError}
    (h : x s = .error e s') (f : α → EStateM LoadError σ β) : (x >>= f) s = .error e s' := by
  change EStateM.bind x f s = _
  unfold EStateM.bind
  rw [h]

theorem step_pure_ok {a b : α} {s s' : σ} (h : (pure a : EStateM LoadError σ α) s = .ok b s') :
    a = b ∧ s = s' := by
  cases h; exact ⟨rfl, rfl⟩

theorem step_lift_ok {x : Except LoadError α} {a : α} {s s' : σ}
    (h : (lift x : EStateM LoadError σ α) s = .ok a s') : x = .ok a ∧ s = s' := by
  cases x with
  | error e => cases h
  | ok b => cases h; exact ⟨rfl, rfl⟩

theorem step_get_ok {s s' t : σ} (h : (get : EStateM LoadError σ σ) s = .ok t s') :
    s = t ∧ s = s' := by
  cases h; exact ⟨rfl, rfl⟩

theorem step_set_ok {s s' t : σ} {u : PUnit} (h : (set t : EStateM LoadError σ PUnit) s = .ok u s') :
    t = s' := by
  cases h; rfl

theorem step_modify_ok {f : σ → σ} {s s' : σ} {u : PUnit}
    (h : (modify f : EStateM LoadError σ PUnit) s = .ok u s') : f s = s' := by
  cases h; rfl

/-- What every step of a list keeps, the whole list keeps. -/
theorem forM_keeps {P : σ → Prop} {f : α → EStateM LoadError σ PUnit} :
    ∀ {xs : List α}, (∀ x ∈ xs, ∀ s s', P s → f x s = .ok ⟨⟩ s' → P s') →
      ∀ {s s'}, P s → xs.forM f s = .ok ⟨⟩ s' → P s'
  | [], _, s, s', hs, h => by
    cases h; exact hs
  | x :: xs, hf, s, s', hs, h => by
    change (f x >>= fun _ => xs.forM f) s = _ at h
    obtain ⟨⟨⟩, s₁, hx, h⟩ := step_bind_ok h
    exact forM_keeps (fun y hy => hf y (List.mem_cons_of_mem _ hy))
      (hf x (List.mem_cons_self ..) s s₁ hs hx) h

theorem forM_snoc_ok {f : α → EStateM LoadError σ PUnit} {xs : List α} {x : α} {s s₁ s₂ : σ}
    (hxs : xs.forM f s = .ok ⟨⟩ s₁) (hx : f x s₁ = .ok ⟨⟩ s₂) :
    (xs ++ [x]).forM f s = .ok ⟨⟩ s₂ := by
  rw [List.forM_eq_forM, List.forM_append, ← List.forM_eq_forM, step_bind_of_ok hxs]
  show (f x >>= fun _ => pure PUnit.unit) s₁ = _
  rw [step_bind_of_ok hx]
  rfl

/-! ## Both ways to end -/

/-- What holds when a computation has ended: `Q` if it succeeded, `E` if it failed. -/
def Ends (Q : α → σ → Prop) (E : LoadError → σ → Prop) : EStateM.Result LoadError σ α → Prop
  | .ok a s => Q a s
  | .error e s => E e s

theorem Ends.ok {Q : α → σ → Prop} {E : LoadError → σ → Prop} {r : EStateM.Result LoadError σ α}
    (h : Ends Q E r) {a : α} {s : σ} (hr : r = .ok a s) : Q a s := by
  subst hr; exact h

theorem Ends.error {Q : α → σ → Prop} {E : LoadError → σ → Prop} {r : EStateM.Result LoadError σ α}
    (h : Ends Q E r) {e : LoadError} {s : σ} (hr : r = .error e s) : E e s := by
  subst hr; exact h

theorem Ends.imp {Q Q' : α → σ → Prop} {E E' : LoadError → σ → Prop}
    {r : EStateM.Result LoadError σ α} (h : Ends Q E r) (hQ : ∀ a s, Q a s → Q' a s)
    (hE : ∀ e s, E e s → E' e s) : Ends Q' E' r := by
  cases r with
  | ok a s => exact hQ a s h
  | error e s => exact hE e s h

/-- A step ends as it should if it does from whatever the step before it leaves. -/
theorem Ends.bind {P : α → σ → Prop} {Q : β → σ → Prop} {E : LoadError → σ → Prop}
    {x : EStateM LoadError σ α} {f : α → EStateM LoadError σ β} {s : σ} (hx : Ends P E (x s))
    (hf : ∀ a s₁, P a s₁ → Ends Q E (f a s₁)) : Ends Q E ((x >>= f) s) := by
  cases h : x s with
  | ok a s₁ =>
    rw [step_bind_of_ok h]
    exact hf a s₁ (hx.ok h)
  | error e s₁ =>
    rw [step_bind_of_error h]
    exact hx.error h

/-- What holds of nothing done and of every prefix done when it held before its last step, holds when
all is done; a step that fails after some of the list says so of what was done until then. -/
theorem forM_ends {P : List α → σ → Prop} {E : List α → LoadError → σ → Prop}
    {f : α → EStateM LoadError σ PUnit} {xs : List α}
    (hf : ∀ pre x post, xs = pre ++ x :: post → ∀ s, P pre s →
      Ends (fun _ => P (pre ++ [x])) (E (pre ++ [x])) (f x s)) {s : σ} (hs : P [] s) :
    Ends (fun _ => P xs) (fun e s' => ∃ pre post, xs = pre ++ post ∧ E pre e s') (xs.forM f s) := by
  suffices hsuffices : ∀ (post pre : List α) (s : σ), xs = pre ++ post → P pre s →
      Ends (fun _ => P xs) (fun e s' => ∃ pre post, xs = pre ++ post ∧ E pre e s') (post.forM f s)
    from hsuffices xs [] s rfl hs
  intro post
  induction post with
  | nil =>
    intro pre s hxs hpre
    rw [hxs, List.append_nil]
    exact hpre
  | cons x post ih =>
    intro pre s hxs hpre
    change Ends _ _ ((f x >>= fun _ => post.forM f) s)
    have hsnoc : xs = pre ++ [x] ++ post := by
      rw [hxs, List.append_assoc, List.singleton_append]
    refine Ends.bind (P := fun _ => P (pre ++ [x])) ?_ fun _ s₁ hs₁ => ih (pre ++ [x]) s₁ hsnoc hs₁
    exact (hf pre x post hxs s hpre).imp (fun _ _ h => h) fun e s' he => ⟨_, post, hsnoc, he⟩

/-- What holds of nothing done and of every prefix done when it held before its last step, holds
when all is done. -/
theorem forM_builds {P : List α → σ → Prop} {f : α → EStateM LoadError σ PUnit} {xs : List α}
    (hf : ∀ pre x post, xs = pre ++ x :: post → ∀ s s', P pre s → f x s = .ok ⟨⟩ s' →
      P (pre ++ [x]) s') {s s' : σ} (hs : P [] s) (h : xs.forM f s = .ok ⟨⟩ s') : P xs s' := by
  refine (forM_ends (P := P) (E := fun _ _ _ => True) (fun pre x post hxs s₁ hs₁ => ?_) hs).ok h
  cases hx : f x s₁ with
  | ok _ s₂ => exact hf pre x post hxs s₁ s₂ hs₁ hx
  | error e s₂ => trivial

/-- A list of steps that succeeded did so up to each of its members, with it, and from there on. -/
theorem forM_split_ok {f : α → EStateM LoadError σ PUnit} {pre post : List α} {x : α} {s s' : σ}
    (h : (pre ++ x :: post).forM f s = .ok ⟨⟩ s') :
    ∃ s₁ s₂, pre.forM f s = .ok ⟨⟩ s₁ ∧ f x s₁ = .ok ⟨⟩ s₂ ∧ post.forM f s₂ = .ok ⟨⟩ s' := by
  rw [List.forM_eq_forM, List.forM_append, ← List.forM_eq_forM] at h
  obtain ⟨⟨⟩, s₁, hpre, h⟩ := step_bind_ok h
  change (f x >>= fun _ => post.forM f) s₁ = _ at h
  obtain ⟨⟨⟩, s₂, hx, hpost⟩ := step_bind_ok h
  exact ⟨s₁, s₂, hpre, hx, hpost⟩

/-- A list of steps that failed did so with one of its members, after those before it succeeded. -/
theorem forM_split_error {f : α → EStateM LoadError σ PUnit} {xs : List α} {s s' : σ} {e : LoadError}
    (h : xs.forM f s = .error e s') :
    ∃ pre x post s₁, xs = pre ++ x :: post ∧ pre.forM f s = .ok ⟨⟩ s₁ ∧ f x s₁ = .error e s' := by
  have hends : Ends (fun _ s' => xs.forM f s = .ok ⟨⟩ s') (fun e s' => ∃ done post, xs = done ++ post ∧
      ∃ pre x s₁, done = pre ++ [x] ∧ pre.forM f s = .ok ⟨⟩ s₁ ∧ f x s₁ = .error e s')
      (xs.forM f s) := by
    refine forM_ends (P := fun pre s₁ => pre.forM f s = .ok ⟨⟩ s₁) (fun pre x post _ s₁ hpre => ?_) rfl
    cases hx : f x s₁ with
    | ok _ s₂ => exact forM_snoc_ok hpre hx
    | error e s₂ => exact ⟨pre, x, s₁, rfl, hpre, hx⟩
  obtain ⟨done, post, hxs, pre, x, s₁, rfl, hpre, hx⟩ := hends.error h
  exact ⟨pre, x, post, s₁, by rw [hxs, List.append_assoc]; rfl, hpre, hx⟩

/-- Mapping a list by steps succeeds only through a result for each of its members, each got in a
state of which everything holds that the steps keep. -/
theorem step_mapM_ok {P : σ → Prop} {f : α → EStateM LoadError σ β}
    (hf : ∀ x s y s', P s → f x s = .ok y s' → P s') :
    ∀ {xs : List α} {s s' : σ} {ys : List β}, P s → xs.mapM f s = .ok ys s' →
      P s' ∧ List.Forall₂ (fun x y => ∃ t t', P t ∧ f x t = .ok y t') xs ys
  | [], s, s', ys, hs, h => by
    rw [List.mapM_nil] at h
    obtain ⟨rfl, rfl⟩ := step_pure_ok h
    exact ⟨hs, .nil⟩
  | x :: xs, s, s', ys, hs, h => by
    rw [List.mapM_cons] at h
    obtain ⟨y, s₁, hx, h⟩ := step_bind_ok h
    obtain ⟨ys', s₂, hxs, h⟩ := step_bind_ok h
    obtain ⟨rfl, rfl⟩ := step_pure_ok h
    obtain ⟨hs', hall⟩ := step_mapM_ok hf (hf x s y s₁ hs hx) hxs
    exact ⟨hs', .cons ⟨s, s₁, hs, hx⟩ hall⟩

/-! ## States that move one way -/

/-- Whichever way a computation ends, the state that it leaves is related to the one it began in. -/
def Moves (R : σ → σ → Prop) (x : EStateM LoadError σ α) : Prop :=
  ∀ s, Ends (fun _ => R s) (fun _ => R s) (x s)

namespace Moves

variable {R : σ → σ → Prop}

theorem ok {x : EStateM LoadError σ α} (h : Moves R x) {s s' : σ} {a : α} (hx : x s = .ok a s') :
    R s s' := (h s).ok hx

theorem pure (hrefl : ∀ s, R s s) (a : α) : Moves R (Pure.pure a : EStateM LoadError σ α) := hrefl

theorem lift (hrefl : ∀ s, R s s) (x : Except LoadError α) :
    Moves R (GraphLoad.lift x : EStateM LoadError σ α) := by
  intro s
  cases x <;> exact hrefl s

theorem bind (htrans : ∀ {s s₁ s₂}, R s s₁ → R s₁ s₂ → R s s₂) {x : EStateM LoadError σ α}
    {f : α → EStateM LoadError σ β} (hx : Moves R x) (hf : ∀ a, Moves R (f a)) :
    Moves R (x >>= f) := fun s =>
  Ends.bind (hx s) fun a s₁ h =>
    (hf a s₁).imp (fun _ _ h' => htrans h h') fun _ _ h' => htrans h h'

theorem forM (hrefl : ∀ s, R s s) (htrans : ∀ {s s₁ s₂}, R s s₁ → R s₁ s₂ → R s s₂)
    {f : α → EStateM LoadError σ PUnit} :
    ∀ {xs : List α}, (∀ x ∈ xs, Moves R (f x)) → Moves R (xs.forM f)
  | [], _ => pure hrefl _
  | x :: _, hf => bind (R := R) htrans (hf x (List.mem_cons_self ..)) fun _ =>
    forM hrefl htrans fun y hy => hf y (List.mem_cons_of_mem _ hy)

theorem foldlM (hrefl : ∀ s, R s s) (htrans : ∀ {s s₁ s₂}, R s s₁ → R s₁ s₂ → R s s₂)
    {f : β → α → EStateM LoadError σ β} :
    ∀ {xs : List α}, (∀ b, ∀ x ∈ xs, Moves R (f b x)) → ∀ b, Moves R (xs.foldlM f b)
  | [], _, b => pure hrefl b
  | x :: _, hf, b => by
    rw [List.foldlM_cons]
    exact bind (R := R) htrans (hf b x (List.mem_cons_self ..)) fun b' =>
      foldlM hrefl htrans (fun b y hy => hf b y (List.mem_cons_of_mem _ hy)) b'

end Moves

/-! ## What a computation answers and what it leaves -/

/-- What a computation answers in a state. -/
def answer (x : EStateM LoadError σ α) (s : σ) : Except LoadError α :=
  match x s with
  | .ok a _ => .ok a
  | .error e _ => .error e

/-- The state that a computation leaves, whichever way it ends. -/
def leaves (x : EStateM LoadError σ α) (s : σ) : σ :=
  match x s with
  | .ok _ s' => s'
  | .error _ s' => s'

theorem answer_of_ok {x : EStateM LoadError σ α} {s s' : σ} {a : α} (h : x s = .ok a s') :
    answer x s = .ok a ∧ leaves x s = s' := by
  unfold answer leaves
  rw [h]
  exact ⟨rfl, rfl⟩

theorem answer_of_error {x : EStateM LoadError σ α} {s s' : σ} {e : LoadError}
    (h : x s = .error e s') : answer x s = .error e ∧ leaves x s = s' := by
  unfold answer leaves
  rw [h]
  exact ⟨rfl, rfl⟩

theorem step_of_answer_ok {x : EStateM LoadError σ α} {s : σ} {a : α} (h : answer x s = .ok a) :
    x s = .ok a (leaves x s) := by
  unfold answer at h
  unfold leaves
  split at h
  · cases h
    assumption
  · cases h

theorem step_of_answer_error {x : EStateM LoadError σ α} {s : σ} {e : LoadError}
    (h : answer x s = .error e) : x s = .error e (leaves x s) := by
  unfold answer at h
  unfold leaves
  split at h
  · cases h
  · cases h
    assumption

theorem answer_bind (x : EStateM LoadError σ α) (f : α → EStateM LoadError σ β) (s : σ) :
    answer (x >>= f) s = match answer x s with
      | .ok a => answer (f a) (leaves x s)
      | .error e => .error e := by
  cases hx : answer x s with
  | ok a =>
    show (match (x >>= f) s with | .ok a _ => Except.ok a | .error e _ => .error e) = _
    rw [step_bind_of_ok (step_of_answer_ok hx)]
    rfl
  | error e => exact (answer_of_error (step_bind_of_error (step_of_answer_error hx) f)).1

theorem leaves_bind (x : EStateM LoadError σ α) (f : α → EStateM LoadError σ β) (s : σ) :
    leaves (x >>= f) s = match answer x s with
      | .ok a => leaves (f a) (leaves x s)
      | .error _ => leaves x s := by
  cases hx : answer x s with
  | ok a =>
    show (match (x >>= f) s with | .ok _ s' => s' | .error _ s' => s') = _
    rw [step_bind_of_ok (step_of_answer_ok hx)]
    rfl
  | error e => exact (answer_of_error (step_bind_of_error (step_of_answer_error hx) f)).2

theorem answer_map (f : α → β) (x : EStateM LoadError σ α) (s : σ) :
    answer (f <$> x) s = (answer x s).map f := by
  have hmap : (f <$> x) s = EStateM.map f x s := rfl
  unfold answer
  rw [hmap, EStateM.map]
  cases x s <;> rfl

@[simp] theorem answer_lift (x : Except LoadError α) (s : σ) :
    answer (lift x : EStateM LoadError σ α) s = x := by
  cases x <;> rfl

@[simp] theorem leaves_lift (x : Except LoadError α) (s : σ) :
    leaves (lift x : EStateM LoadError σ α) s = s := by
  cases x <;> rfl

/-- Mapping a list by steps leaves what its first failing step leaves, or else its last. -/
theorem leaves_mapM_cons (f : α → EStateM LoadError σ β) (x : α) (xs : List α) (s : σ) :
    leaves ((x :: xs).mapM f) s = match f x s with
      | .ok _ s' => leaves (xs.mapM f) s'
      | .error _ s' => s' := by
  rw [List.mapM_cons]
  cases hx : f x s with
  | error e s' => exact (answer_of_error (step_bind_of_error hx _)).2
  | ok y s' =>
    rw [leaves_bind, (answer_of_ok hx).1, (answer_of_ok hx).2]
    dsimp only
    rw [leaves_bind]
    cases answer (xs.mapM f) s' <;> rfl

@[simp] theorem answer_get (s : σ) : answer (get : EStateM LoadError σ σ) s = .ok s := rfl

@[simp] theorem leaves_get (s : σ) : leaves (get : EStateM LoadError σ σ) s = s := rfl

theorem Moves.leaves {R : σ → σ → Prop} {x : EStateM LoadError σ α} (h : Moves R x) (s : σ) :
    R s (GraphLoad.leaves x s) := by
  unfold GraphLoad.leaves
  have hends := h s
  split
  · rename_i heq
    exact hends.ok heq
  · rename_i heq
    exact hends.error heq

/-! ## Faults in their order -/

/-- What a check answers that goes through some faults in their order: the first one, if there is any. -/
def Finds (faults : List LoadError) : Except LoadError α → Prop
  | .ok _ => faults = []
  | .error e => faults.head? = some e

namespace Finds

variable {faults others : List LoadError}

theorem bind {x : Except LoadError α} {f : α → Except LoadError β} (hx : Finds faults x)
    (hf : ∀ a, x = .ok a → Finds others (f a)) : Finds (faults ++ others) (x >>= f) := by
  cases x with
  | ok a =>
    rw [show faults = [] from hx]
    exact hf a rfl
  | error e =>
    show (faults ++ others).head? = some e
    rw [List.head?_append, show faults.head? = some e from hx]
    rfl

theorem mapM {f : α → Except LoadError β} {g : α → List LoadError} :
    ∀ {xs : List α}, (∀ x ∈ xs, Finds (g x) (f x)) → Finds (xs.flatMap g) (xs.mapM f)
  | [], _ => by
    rw [List.mapM_nil]
    exact List.flatMap_nil
  | x :: xs, h => by
    rw [List.mapM_cons, List.flatMap_cons]
    refine (h x (List.mem_cons_self ..)).bind fun y _ => ?_
    rw [← List.append_nil (xs.flatMap g)]
    exact (mapM fun z hz => h z (List.mem_cons_of_mem _ hz)).bind fun ys _ => rfl

end Finds

/-- A computation that goes through some faults in their order from any state of which `P` holds, and
keeps `P` while it finds none. -/
def Checks (P : σ → Prop) (faults : List LoadError) (x : EStateM LoadError σ α) : Prop :=
  ∀ s, P s → Ends (fun _ s' => P s' ∧ faults = []) (fun e _ => faults.head? = some e) (x s)

namespace Checks

variable {P : σ → Prop} {faults others : List LoadError}

theorem finds {x : EStateM LoadError σ α} (h : Checks P faults x) {s : σ} (hs : P s) :
    Finds faults (answer x s) := by
  have hends := h s hs
  unfold answer
  split
  · rename_i heq
    exact (hends.ok heq).2
  · rename_i heq
    exact hends.error heq

theorem pure (a : α) : Checks P [] (Pure.pure a : EStateM LoadError σ α) := fun _ hs => ⟨hs, rfl⟩

theorem lift {x : Except LoadError α} (h : Finds faults x) :
    Checks P faults (GraphLoad.lift x : EStateM LoadError σ α) := by
  intro s hs
  cases x with
  | ok a => exact ⟨hs, h⟩
  | error e => exact h

theorem bind {x : EStateM LoadError σ α} {f : α → EStateM LoadError σ β} (hx : Checks P faults x)
    (hf : ∀ s a s', P s → x s = .ok a s' → Checks P others (f a)) :
    Checks P (faults ++ others) (x >>= f) := by
  intro s hs
  cases h : x s with
  | ok a s₁ =>
    obtain ⟨hs₁, hnone⟩ := (hx s hs).ok h
    rw [step_bind_of_ok h, hnone]
    exact hf s a s₁ hs h s₁ hs₁
  | error e s₁ =>
    rw [step_bind_of_error h]
    show (faults ++ others).head? = some e
    rw [List.head?_append, (hx s hs).error h]
    rfl

/-- A step that finds nothing wrong goes before one that may. -/
theorem next {x : EStateM LoadError σ α} {f : α → EStateM LoadError σ β} (hx : Checks P [] x)
    (hf : ∀ a, Checks P faults (f a)) : Checks P faults (x >>= f) := by
  rw [← List.nil_append faults]
  exact hx.bind fun _ a _ _ _ => hf a

theorem lift_ok {a : α} {f : α → EStateM LoadError σ β} (h : Checks P faults (f a)) :
    Checks P faults (GraphLoad.lift (.ok a) >>= f) := h

theorem forM {f : α → EStateM LoadError σ PUnit} {g : α → List LoadError} :
    ∀ {xs : List α}, (∀ x ∈ xs, Checks P (g x) (f x)) → Checks P (xs.flatMap g) (xs.forM f)
  | [], _ => pure _
  | x :: xs, h => by
    rw [List.flatMap_cons]
    show Checks P _ (f x >>= fun _ => xs.forM f)
    exact (h x (List.mem_cons_self ..)).bind fun _ _ _ _ _ =>
      forM fun y hy => h y (List.mem_cons_of_mem _ hy)

theorem mapM {f : α → EStateM LoadError σ β} {g : α → List LoadError} :
    ∀ {xs : List α}, (∀ x ∈ xs, Checks P (g x) (f x)) → Checks P (xs.flatMap g) (xs.mapM f)
  | [], _ => by
    rw [List.mapM_nil]
    exact pure _
  | x :: xs, h => by
    rw [List.mapM_cons, List.flatMap_cons]
    refine (h x (List.mem_cons_self ..)).bind fun _ y _ _ _ => ?_
    rw [← List.append_nil (xs.flatMap g)]
    exact (mapM fun z hz => h z (List.mem_cons_of_mem _ hz)).bind fun _ ys _ _ _ => pure _

end Checks

end GraphLoad
