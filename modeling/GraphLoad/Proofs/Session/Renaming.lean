/-
Sessions by other numbers. The number of a session stands in its tree, in its handles and in its plans,
and nothing is done with it but to compare it; so whatever a session is asked under another number, it
does the same.
-/
import GraphLoad.Proofs.Session.Calls

namespace GraphLoad

variable {σ α β : Type}

theorem lift_map (f : α → β) (x : Except LoadError α) :
    (lift (x.map f) : EStateM LoadError σ β) = f <$> lift x := by
  cases x <;> rfl

/-! ## Other numbers -/

/-- The handle by the number that `ρ` gives for that of its session. -/
def SetRef.rename (ρ : Nat → Nat) (handle : SetRef) : SetRef :=
  { handle with session := ρ handle.session }

/-- The tree by another number. -/
def CommandTree.rename (ρ : Nat → Nat) (t : CommandTree) : CommandTree :=
  { t with session := ρ t.session }

/-- The session by another number. -/
def Session.rename (ρ : Nat → Nat) (q : Session) : Session := { q with tree := q.tree.rename ρ }

/-- The plan by another number. -/
def Plan.rename (ρ : Nat → Nat) (p : Plan) : Plan := { p with tree := p.tree.rename ρ }

/-- The reply by another number. -/
def Reply.rename (ρ : Nat → Nat) : Reply → Reply
  | .set handle => .set (handle.rename ρ)
  | .changed => .changed
  | .plan p => .plan (p.rename ρ)

/-- What is asked, with the handle in it by another number. -/
def Ask.rename (ρ : Nat → Nat) : Ask → Ask
  | .load source relationship => .load (source.rename ρ) relationship
  | ask => ask

/-! ## Trees and plans -/

namespace CommandTree

variable (ρ : Nat → Nat) (t : CommandTree)

@[simp] theorem get?_rename (id : Nat) : (t.rename ρ).get? id = t.get? id := rfl

@[simp] theorem childrenOf_rename (id : Nat) : (t.rename ρ).childrenOf id = t.childrenOf id := rfl

theorem below_rename (root : Command) (id : Nat) : (t.rename ρ).below root id = t.below root id := by
  induction id using later_induction t with
  | step id ih =>
    rw [below_eq, below_eq, childrenOf_rename]
    refine congrArg Below.join (List.map_congr_left fun child hchild => ?_)
    obtain ⟨hlater, hlt⟩ := mem_childrenOf hchild
    unfold branch
    rw [get?_rename, ih child hlater hlt]

theorem chainAt_rename (root : Nat) : (t.rename ρ).chainAt root = t.chainAt root := by
  simp only [chainAt, get?_rename, below_rename]

/-- A tree is cut into the same chains. -/
theorem chainsFrom_rename (root : Nat) : (t.rename ρ).chainsFrom root = t.chainsFrom root := by
  induction root using later_induction t with
  | step root ih =>
    rw [chainsFrom_eq, chainsFrom_eq, chainAt_rename]
    refine congrArg _ (List.flatMap_congr fun child hchild => ?_)
    obtain ⟨hlater, hlt⟩ := lt_of_mem_roots_chainAt hchild
    exact ih child hlater hlt

theorem add_rename (parent : Nat) (r : Relation) :
    (t.rename ρ).add parent r = (t.add parent r).map fun p => (p.1.rename ρ, p.2) := by
  unfold add
  rw [get?_rename]
  cases t.get? parent with
  | none => rfl
  | some source =>
    dsimp only
    split <;> rfl

end CommandTree

/-- The plan of a tree is made the same way. -/
theorem Plan.make_rename (ρ : Nat → Nat) (t : CommandTree) (cfg : Settings) :
    make (t.rename ρ) cfg = Plan.rename ρ <$> make t cfg := by
  have hcompile : ∀ projections, compile (t.rename ρ) projections cfg.join =
      compile t projections cfg.join := fun projections => rfl
  unfold make
  simp only [CommandTree.chainsFrom_rename, hcompile, map_bind, map_pure]
  rfl

/-! ## Sessions -/

namespace Session

variable {ρ : Nat → Nat}

theorem owned_rename (hρ : Function.Injective ρ) (q : Session) (handle : SetRef) :
    (q.rename ρ).owned (handle.rename ρ) = q.owned handle := by
  have hsession : (handle.rename ρ).session = (q.rename ρ).tree.session ↔
      handle.session = q.tree.session := hρ.eq_iff
  have hget : (q.rename ρ).tree.get? (handle.rename ρ).command = q.tree.get? handle.command := rfl
  unfold owned
  rw [hget]
  simp only [hsession]
  rfl

theorem load_rename (hρ : Function.Injective ρ) (q : Session) (source : SetRef) (relationship : String) :
    (q.rename ρ).load (source.rename ρ) relationship =
      Session.rename ρ <$> q.load source relationship := by
  have hadd : ∀ r, (q.rename ρ).tree.add source.command r =
      (q.tree.add source.command r).map fun p => (p.1.rename ρ, p.2) := q.tree.add_rename ρ source.command
  unfold load
  rw [owned_rename hρ]
  simp only [SetRef.rename, hadd, lift_map, map_bind, map_pure, bind_map_left]
  rfl

theorem handOut_rename (ρ : Nat → Nat) (q : Session) (missing : String) :
    (q.rename ρ).handOut missing = (q.handOut missing).map fun p => (p.1.rename ρ, p.2.rename ρ) := by
  have hactive : (q.rename ρ).activeSet? = q.activeSet?.map (SetRef.rename ρ) := by
    show (q.tree.get? q.active).map _ = ((q.tree.get? q.active).map _).map _
    rw [Option.map_map]
    rfl
  unfold handOut
  rw [hactive]
  cases q.activeSet? <;> rfl

theorem create_rename (ρ : Nat → Nat) (s : Schema) (id : Nat) (entity : String) (settings : Settings) :
    create s (ρ id) entity settings = (create s id entity settings).map (Session.rename ρ) := by
  unfold create
  cases s.entity entity <;> rfl

end Session

/-- Asked under another number, a session does the same under that number. -/
theorem Ask.act_rename {ρ : Nat → Nat} (hρ : Function.Injective ρ) (id : Nat) (ask : Ask)
    (q : Option Session) : (ask.rename ρ).act (ρ id) (q.map (Session.rename ρ)) =
      (ask.act id q).map fun x => (fun p => (p.1.rename ρ, p.2.rename ρ)) <$> x := by
  cases ask with
  | create entity settings =>
    cases q with
    | some q₀ => rfl
    | none =>
      refine congrArg some ?_
      simp only [Session.create_rename, lift_map, map_bind, bind_map_left, Session.handOut_rename]
  | load source relationship =>
    cases q with
    | none => rfl
    | some q₀ =>
      refine congrArg some ?_
      simp only [Session.load_rename hρ, lift_map, map_bind, bind_map_left, Session.handOut_rename]
  | change c =>
    cases q with
    | none => rfl
    | some q₀ =>
      refine congrArg some ?_
      rcases Session.change_eq c with ⟨f, hf⟩ | ⟨e, he⟩
      · simp only [hf]
        rfl
      · simp only [he]
        rfl
  | plan =>
    cases q with
    | none => rfl
    | some q₀ =>
      refine congrArg some ?_
      show (do let p ← Plan.make (q₀.tree.rename ρ) q₀.settings; pure (q₀.rename ρ, Reply.plan p)) = _
      rw [Plan.make_rename]
      simp only [map_bind, map_pure, bind_map_left]
      rfl

end GraphLoad
