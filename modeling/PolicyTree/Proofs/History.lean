import PolicyTree.Proofs.Moves

/-!
# Histories

A run, with the steps under held locks in it, comes to single steps one after another, each taken in some
session. What holds of all that can happen later is said of every history.

* `Session.History`: the single steps that lead from one session to another.
* `history_step`, `history_run`: **every step and every run has a history**, and `Reachable.history`: every
  session that steps lead to has one that goes back to the empty tree.
* `History.moves`, `History.tree_extends`: a history comes to moves, so all nodes stay.
* `History.byId?`: **the policy known under an id stays**; it can only become known by being added.
-/

namespace PolicyTree.Session

variable {s s' s'' start : Session} {past later : List (Session × Step)} {x : Step}
  {touchable : String → Prop}

/-- **The single steps that lead from one session to another**, each with the session that it was taken in.
In between, the lock may be taken and given back. -/
inductive History (start : Session) : List (Session × Step) → Session → Prop
  | nil : History start [] start
  | step {past : List (Session × Step)} {s : Session} {x : Step} (h : History start past s)
      (hx : x.IsSingle) : History start (past ++ [(s, x)]) (s.step x).2
  | hold {past : List (Session × Step)} {s : Session} {mode : LockMode} {lock : Lock}
      (h : History start past s) (hl : s.lock.acquire mode = .ok lock) : History start past { s with lock }
  | release {past : List (Session × Step)} {s : Session} (h : History start past s) :
      History start past { s with lock := s.lock.release }

namespace History

theorem single (s : Session) (hx : x.IsSingle) : History s [(s, x)] (s.step x).2 := .step .nil hx

theorem append (h : History s past s') (h' : History s' later s'') : History s (past ++ later) s'' := by
  induction h' with
  | nil => rw [List.append_nil]; exact h
  | step _ hx ih => rw [← List.append_assoc]; exact ih.step hx
  | hold _ hl ih => exact ih.hold hl
  | release _ ih => exact ih.release

end History

/-! ## Steps and runs -/

/-- A history in which only given changes of the tree are asked for. -/
def HasHistory (allowed : List TreeChange) (s s' : Session) : Prop :=
  ∃ past, History s past s' ∧ ∀ e ∈ past, ∀ c ∈ e.2.changes, c ∈ allowed

theorem HasHistory.single (s : Session) (hx : x.IsSingle) : HasHistory x.changes s (s.step x).2 := by
  refine ⟨[(s, x)], .single s hx, fun e he c hc => ?_⟩
  rw [List.mem_singleton.1 he] at hc
  exact hc

theorem HasHistory.append {allowed allowed' : List TreeChange} (h : HasHistory allowed s s')
    (h' : HasHistory allowed' s' s'') : HasHistory (allowed ++ allowed') s s'' := by
  obtain ⟨past, hpast, hc⟩ := h
  obtain ⟨later, hlater, hc'⟩ := h'
  refine ⟨past ++ later, hpast.append hlater, fun e he c hm => ?_⟩
  rcases List.mem_append.1 he with he | he
  · exact List.mem_append_left _ (hc e he c hm)
  · exact List.mem_append_right _ (hc' e he c hm)

mutual

/-- **Every step has a history**, in which the changes are those that the step asks for. -/
theorem history_step (s : Session) : ∀ x : Step, HasHistory x.changes s (s.step x).2
  | .withLock mode steps => by
    simp only [step]
    cases hl : s.lock.acquire mode with
    | error why => exact ⟨[], .nil, fun e he => by cases he⟩
    | ok lock =>
      -- the lock is taken, the steps are done, and the lock is given back
      obtain ⟨past, hpast, hc⟩ := history_run { s with lock } steps
      have hheld : History s [] { s with lock } := .hold .nil hl
      exact ⟨past, (hheld.append hpast).release, hc⟩
  | .assignPolicy _ _ _ | .unassignPolicy _ _ | .policyInForce _ | .isCovered _ | .registry _ | .config
  | .log | .change _ | .query _ | .poison => .single s trivial

/-- **Every run has a history**, in which the changes are those that the run asks for. -/
theorem history_run (s : Session) : ∀ steps : List Step,
    HasHistory (Step.changesIn steps) s (s.run steps).2
  | [] => ⟨[], .nil, fun e he => by cases he⟩
  | first :: rest => by
    simp only [run]
    exact (history_step s first).append (history_run (s.step first).2 rest)

end

/-- **Every session that steps lead to has a history** that goes back to an empty tree. -/
theorem Reachable.history (hs : s.Reachable) : ∃ config lock checker log start past,
    Session.start config lock checker log = .ok start ∧ History start past s := by
  induction hs with
  | start h => exact ⟨_, _, _, _, _, [], h, .nil⟩
  | step hs x ih =>
    obtain ⟨config, lock, checker, log, start, past, hstart, hpast⟩ := ih
    obtain ⟨later, hlater, -⟩ := history_step _ x
    exact ⟨config, lock, checker, log, start, past ++ later, hstart, hpast.append hlater⟩
  | hold hs hl ih =>
    obtain ⟨config, lock, checker, log, start, past, hstart, hpast⟩ := ih
    exact ⟨config, lock, checker, log, start, past, hstart, hpast.hold hl⟩

/-! ## What all later sessions keep -/

/-- What a step does to what is known under an id. -/
theorem Effect.byId? (h : Effect touchable s x s') (id : UInt8) :
    s'.registry.byId? id = s.registry.byId? id ∨
      s.registry.byId? id = none ∧ ∃ p, x = .registry (.add p) ∧ p.id = id ∧
        s'.registry.byId? id = some p := by
  cases h with
  | registry op =>
    rcases s.registry.byId?_step op id with hsame | ⟨hfree, p, rfl, hp⟩
    · exact Or.inl hsame
    · exact Or.inr ⟨hfree, p, rfl, hp⟩
  | _ => exact Or.inl rfl

namespace History

/-- **A history comes to moves**, which touch only the attributes that its changes name. -/
theorem moves (h : History s past s')
    (hpast : ∀ e ∈ past, ∀ c ∈ e.2.changes, ∀ name, c.writes? = some name → touchable name) :
    Moves touchable s s' := by
  induction h with
  | nil => exact .refl
  | @step past s₁ x _ hx ih =>
    have hmoves := ih fun e he => hpast e (List.mem_append_left _ he)
    have hstep := s₁.effect_step hx (hpast _ (List.mem_append_right _ (List.mem_singleton_self _)))
    exact hmoves.trans hstep.moves
  | hold _ hl ih => exact (ih hpast).tail (.lock _)
  | release _ ih => exact (ih hpast).tail (.lock _)

theorem moves_any (h : History s past s') : Moves (fun _ => True) s s' :=
  h.moves fun _ _ _ _ _ _ => trivial

/-- **All nodes stay**, each with its name and its place; a file keeps its policy id. -/
theorem tree_extends (h : History s past s') : s.tree.Extends s'.tree := h.moves_any.tree_extends

theorem wellFormed (h : History s past s') (hs : s.WellFormed) : s'.WellFormed := hs.moves h.moves_any

/-- **The policy known under an id stays.** If there is none, it can only become known by being added. -/
theorem byId? (h : History s past s') (id : UInt8) : s'.registry.byId? id = s.registry.byId? id ∨
    s.registry.byId? id = none ∧ ∃ s₁ p, (s₁, Step.registry (.add p)) ∈ past ∧ p.id = id ∧
      s'.registry.byId? id = some p := by
  induction h with
  | nil => exact Or.inl rfl
  | @step past s₁ x _ hx ih =>
    have heffect : Effect (fun _ => True) s₁ x (s₁.step x).2 := s₁.effect_step hx fun _ _ _ _ => trivial
    rcases heffect.byId? id with hsame | ⟨hfree, p, rfl, hid, hadded⟩
    · rw [hsame]
      refine ih.imp_right fun ⟨hnone, s₂, p, hmem, hp⟩ => ?_
      exact ⟨hnone, s₂, p, List.mem_append_left _ hmem, hp⟩
    · -- the id was free all along, and now it is taken
      have hnone : s.registry.byId? id = none := by
        rcases ih with h | ⟨hnone, -⟩
        · rw [← h, hfree]
        · exact hnone
      exact Or.inr ⟨hnone, s₁, p, List.mem_append_right _ (List.mem_singleton_self _), hid, hadded⟩
  | hold _ hl ih => exact ih
  | release _ ih => exact ih

end History

end PolicyTree.Session
