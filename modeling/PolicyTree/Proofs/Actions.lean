import PolicyTree.Session.Step

/-!
# Running actions

An action on the tree or on a session is run one primitive at a time (`run_throw`, `run_ofExcept_ok`,
`Call.run_emit`, …), so that no proof opens the monad. Main statement:

* `Call.run_locked`: **an action under the lock**: refused at once, or run and followed by the
  release, whatever it came to.
-/

namespace PolicyTree

open MonadExcept (ofExcept)

variable {ε σ α β : Type}

@[simp] theorem run_throw (e : ε) (s : σ) : (throw e : EStateM ε σ α).run s = .error e s := rfl

@[simp] theorem run_ofExcept_ok (a : α) (s : σ) :
    (ofExcept (.ok a : Except ε α) : EStateM ε σ α).run s = .ok a s := rfl

@[simp] theorem run_ofExcept_error (e : ε) (s : σ) :
    (ofExcept (.error e : Except ε α) : EStateM ε σ α).run s = .error e s := rfl

theorem run_map (f : α → β) (x : EStateM ε σ α) (s : σ) :
    (f <$> x).run s = match x.run s with
      | .ok a s => .ok (f a) s
      | .error e s => .error e s := rfl

/-- The state that an action leaves, whatever it came to. -/
def stateAfter (x : EStateM ε σ α) (s : σ) : σ :=
  match x.run s with
  | .ok _ s => s
  | .error _ s => s

namespace Call

variable {s : Session} {events : List Event}

@[simp] theorem run_session : session.run ⟨s, events⟩ = .ok s ⟨s, events⟩ := rfl

@[simp] theorem run_emit (e : Event) :
    (emit e).run ⟨s, events⟩ = .ok () ⟨s, events ++ [e]⟩ := rfl

theorem run_edit (action : Tree.Edit α) :
    (edit action).run ⟨s, events⟩ = match action.run s.tree with
      | .ok a tree => .ok a ⟨{ s with tree }, events⟩
      | .error e tree => .error e ⟨{ s with tree }, events⟩ := by
  simp only [edit, EStateM.run_bind, run_session]
  rw [show action s.tree = action.run s.tree from rfl]
  cases action.run s.tree <;> rfl

theorem run_acquire (mode : LockMode) :
    (acquire mode).run ⟨s, events⟩ = match s.lock.acquire mode with
      | .ok lock => .ok () ⟨{ s with lock }, events ++ [.acquire mode]⟩
      | .error why => .error (.lockRefused why) ⟨s, events ++ [.fail mode]⟩ := by
  simp only [acquire, EStateM.run_bind, run_session]
  cases s.lock.acquire mode <;> rfl

theorem run_check (c : Chain) (mode : AccessMode) :
    (check c mode).run ⟨s, events⟩ =
      if s.config.permissions then
        match s.checker s.tree c mode with
        | .ok _ => .ok () ⟨s, events ++ [.check mode c.path]⟩
        | .error e => .error e ⟨s, events ++ [.check mode c.path]⟩
      else .ok () ⟨s, events⟩ := by
  simp only [check, EStateM.run_bind, run_session]
  split
  · simp only [EStateM.run_bind, run_emit]
    cases s.checker s.tree c mode <;> rfl
  · rfl

/-- **An action under the lock** is refused at once, or run and followed by the release, whatever
it came to. -/
theorem run_locked (mode : LockMode) (action : Call α) :
    (locked mode action).run ⟨s, events⟩ = match s.lock.acquire mode with
      | .error why => .error (.lockRefused why) ⟨s, events ++ [.fail mode]⟩
      | .ok lock => match action.run ⟨{ s with lock }, events ++ [.acquire mode]⟩ with
        | .ok a course => .ok a ⟨{ course.session with lock := course.session.lock.release },
            course.events ++ [.release mode]⟩
        | .error e course => .error e ⟨{ course.session with lock := course.session.lock.release },
            course.events ++ [.release mode]⟩ := by
  simp only [locked, EStateM.run_bind, run_acquire]
  cases s.lock.acquire mode with
  | error why => rfl
  | ok lock =>
    simp only [tryFinally, run_map]
    simp only [tryFinally', EStateM.run]
    cases action ⟨{ s with lock }, events ++ [.acquire mode]⟩ <;> rfl

end Call

end PolicyTree
