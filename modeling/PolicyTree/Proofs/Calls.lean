import PolicyTree.Proofs.Alterations

/-!
# What the calls come to

A guarded call takes the lock, finds the chain of its path, asks for permission, and acts. Each of the
four calls is guarded (`Call.assignPolicy_eq`, …), and what it comes to depends on three things:

* `Session.grant`: the chain that a call may act on, or why not, and what the collaborators see of it.
* `perform_assignPolicy_of_directory`, `perform_unassignPolicy_of_directory`: **the two changing calls,
  admitted on a directory, succeed**: the status shown last cannot fail.
* `failed_call_keeps_session`: **a call that fails leaves the session as it was.**
-/

namespace PolicyTree

open MonadExcept (ofExcept)

variable {α : Type} {s : Session} {path name : String} {c : Chain} {d : NodeId} {n : Node} {p : Policy}
  {e : Error} {t : Tree} {mode : LockMode} {ask : Option AccessMode} {events seen : List Event}
  {retry : Option RetryToken}

/-- A lock that is taken and given back is as it was. -/
theorem Lock.release_of_acquire {l l' : Lock} (h : l.acquire mode = .ok l') : l'.release = l := by
  cases l with
  | shared readers =>
    cases mode with
    | read => cases h; rfl
    | write =>
      cases readers with
      | zero => cases h; rfl
      | succ readers => cases h
  | exclusive => cases mode <;> cases h
  | poisonable poisoned =>
    cases poisoned with
    | false => cases h; rfl
    | true => cases mode <;> cases h

namespace Session

/-- What the permission checker says of a use of a chain's target, if it is asked at all. -/
def permit (s : Session) (c : Chain) : Option AccessMode → Except Error Unit
  | some ask => if s.config.permissions then s.checker s.tree c ask else .ok ()
  | none => .ok ()

/-- What the permission checker is asked. -/
def questions (s : Session) (c : Chain) : Option AccessMode → List Event
  | some ask => if s.config.permissions then [.check ask c.path] else []
  | none => []

/-- **The chain that a call may act on**, or why not, and what the collaborators see of it. -/
def grant (s : Session) (mode : LockMode) (ask : Option AccessMode) (path : String) :
    Except Error Chain × List Event :=
  match s.lock.acquire mode with
  | .error why => (.error (.lockRefused why), [.fail mode])
  | .ok _ =>
    match s.tree.chain path with
    | .error e => (.error e, [.acquire mode, .release mode])
    | .ok c =>
      ((s.permit c ask).map fun _ => c, [.acquire mode] ++ s.questions c ask ++ [.release mode])

/-- Only the permission checker turns an access down. -/
theorem permit_error (h : s.permit c ask = .error e) :
    s.config.permissions ∧ ∃ use, ask = some use ∧ s.checker s.tree c use = .error e := by
  cases ask with
  | none => cases h
  | some use =>
    simp only [permit] at h
    split at h
    · rename_i hp; exact ⟨hp, use, rfl, h⟩
    · cases h

theorem grant_ok (h : s.grant mode ask path = (.ok c, seen)) :
    (∃ lock, s.lock.acquire mode = .ok lock) ∧ s.tree.chain path = .ok c ∧ s.permit c ask = .ok () ∧
      seen = [.acquire mode] ++ s.questions c ask ++ [.release mode] := by
  unfold grant at h
  cases hl : s.lock.acquire mode with
  | error why => rw [hl] at h; cases h
  | ok lock =>
    rw [hl] at h
    cases hc : s.tree.chain path with
    | error e => simp only [hc] at h; cases h
    | ok c' =>
      simp only [hc, Prod.mk.injEq] at h
      cases hp : s.permit c' ask with
      | error e => rw [hp] at h; cases h.1
      | ok u => rw [hp] at h; cases h.1; exact ⟨⟨lock, rfl⟩, rfl, hp, h.2.symm⟩

/-- Why a call is not admitted. -/
theorem grant_error (h : s.grant mode ask path = (.error e, seen)) :
    (∃ why, e = .lockRefused why) ∨ s.tree.chain path = .error e ∨
      ∃ c, s.tree.chain path = .ok c ∧ s.permit c ask = .error e := by
  unfold grant at h
  cases hl : s.lock.acquire mode with
  | error why => rw [hl] at h; cases h; exact Or.inl ⟨why, rfl⟩
  | ok lock =>
    rw [hl] at h
    cases hc : s.tree.chain path with
    | error e' => simp only [hc] at h; cases h; exact Or.inr (Or.inl rfl)
    | ok c =>
      simp only [hc, Prod.mk.injEq] at h
      cases hp : s.permit c ask with
      | error e' => rw [hp] at h; cases h.1; exact Or.inr (Or.inr ⟨c, rfl, hp⟩)
      | ok u => rw [hp] at h; cases h.1

theorem perform_of_ok {call : Call α} {a : α} {s' : Session} (h : call.run ⟨s, []⟩ = .ok a ⟨s', events⟩) :
    s.perform call = ⟨.ok a, events, s'⟩ := by
  unfold perform; rw [show call ⟨s, []⟩ = call.run ⟨s, []⟩ from rfl, h]

theorem perform_of_error {call : Call α} {s' : Session} (h : call.run ⟨s, []⟩ = .error e ⟨s', events⟩) :
    s.perform call = ⟨.error e, events, s'⟩ := by
  unfold perform; rw [show call ⟨s, []⟩ = call.run ⟨s, []⟩ from rfl, h]

theorem perform_of_answer {call : Call α} {r : Except Error α} {s' : Session}
    (h : call.run ⟨s, []⟩ = (ofExcept r : Call α).run ⟨s', events⟩) : s.perform call = ⟨r, events, s'⟩ := by
  cases r with
  | ok a => exact perform_of_ok h
  | error e => exact perform_of_error h

theorem perform_locked_of_refused {why : Refusal} (h : s.lock.acquire mode = .error why) (action : Call α) :
    s.perform (Call.locked mode action) = ⟨.error (.lockRefused why), [.fail mode], s⟩ := by
  apply perform_of_error
  rw [Call.run_locked, h]
  rfl

end Session

/-! ## Guarded calls -/

namespace Call

/-- Asks the permission checker, if there is anything to ask. -/
def askFor (c : Chain) : Option AccessMode → Call Unit
  | some ask => check c ask
  | none => return

/-- A call that acts on the chain of a path, under the lock and with permission. -/
def guarded (mode : LockMode) (ask : Option AccessMode) (path : String) (act : Chain → Call α) : Call α :=
  locked mode do
    let c ← resolve path
    askFor c ask
    act c

theorem run_ask (c : Chain) (ask : Option AccessMode) :
    (askFor c ask).run ⟨s, events⟩ = match s.permit c ask with
      | .ok _ => .ok () ⟨s, events ++ s.questions c ask⟩
      | .error e => .error e ⟨s, events ++ s.questions c ask⟩ := by
  cases ask with
  | none => rw [askFor, EStateM.run_pure, Session.permit, Session.questions, List.append_nil]
  | some ask =>
    rw [askFor, run_check, Session.permit, Session.questions]
    by_cases hp : s.config.permissions
    · cases s.checker s.tree c ask <;> simp only [hp, if_true]
    · rw [if_neg hp, if_neg hp, if_neg hp, List.append_nil]

variable {act : Chain → Call α}

/-- The lock's part of a guarded call. -/
theorem run_guarded {lock : Lock} (hl : s.lock.acquire mode = .ok lock) (hc : s.tree.chain path = .ok c)
    (hp : s.permit c ask = .ok ()) :
    (guarded mode ask path act).run ⟨s, events⟩ =
      match (act c).run ⟨{ s with lock }, events ++ [.acquire mode] ++ s.questions c ask⟩ with
      | .ok a course => .ok a ⟨{ course.session with lock := course.session.lock.release },
          course.events ++ [.release mode]⟩
      | .error e course => .error e ⟨{ course.session with lock := course.session.lock.release },
          course.events ++ [.release mode]⟩ := by
  have hp' : Session.permit { s with lock } c ask = .ok () := by cases ask <;> exact hp
  have hq : Session.questions { s with lock } c ask = s.questions c ask := by cases ask <;> rfl
  rw [guarded, run_locked, hl]
  cases hact : (act c).run ⟨{ s with lock }, events ++ [.acquire mode] ++ s.questions c ask⟩ <;>
    simp only [resolve, EStateM.run_bind, run_session, hc, run_ofExcept_ok, run_ask, hp', hq, hact]

theorem run_guarded_of_refused (h : s.grant mode ask path = (.error e, seen)) :
    (guarded mode ask path act).run ⟨s, events⟩ = .error e ⟨s, events ++ seen⟩ := by
  unfold Session.grant at h
  rw [guarded, run_locked]
  cases hl : s.lock.acquire mode with
  | error why => rw [hl] at h; cases h; rfl
  | ok lock =>
    -- whether the path or the permission fails, the lock is given back as it was
    have hback := Lock.release_of_acquire hl
    rw [hl] at h
    cases hc : s.tree.chain path with
    | error e' =>
      simp only [hc, Prod.mk.injEq, Except.error.injEq] at h
      obtain ⟨rfl, rfl⟩ := h
      simp only [resolve, EStateM.run_bind, run_session, hc, run_ofExcept_error, hback,
        List.append_assoc, List.singleton_append]
    | ok c =>
      simp only [hc, Prod.mk.injEq] at h
      obtain ⟨h, rfl⟩ := h
      cases hp : s.permit c ask with
      | ok u => rw [hp] at h; cases h
      | error e' =>
        rw [hp] at h; cases h
        have hp' : Session.permit { s with lock } c ask = .error e := by cases ask <;> exact hp
        have hq : Session.questions { s with lock } c ask = s.questions c ask := by cases ask <;> rfl
        simp only [resolve, EStateM.run_bind, run_session, hc, run_ofExcept_ok, run_ask, hp', hq, hback,
          List.append_assoc]

/-- **An action that is done changes the tree alone**: the lock is as it was. -/
theorem run_guarded_of_done {a : α} (h : s.grant mode ask path = (.ok c, seen))
    (hact : ∀ lock events, (act c).run ⟨{ s with lock }, events⟩ = .ok a ⟨{ s with lock, tree := t }, events⟩) :
    (guarded mode ask path act).run ⟨s, events⟩ = .ok a ⟨{ s with tree := t }, events ++ seen⟩ := by
  obtain ⟨⟨lock, hl⟩, hc, hp, rfl⟩ := Session.grant_ok h
  rw [run_guarded hl hc hp, hact]
  simp only [Lock.release_of_acquire hl, List.append_assoc]

/-- **An action that fails without a change leaves the session as it was.** -/
theorem run_guarded_of_failed (h : s.grant mode ask path = (.ok c, seen))
    (hact : ∀ lock events, (act c).run ⟨{ s with lock }, events⟩ = .error e ⟨{ s with lock }, events⟩) :
    (guarded mode ask path act).run ⟨s, events⟩ = .error e ⟨s, events ++ seen⟩ := by
  obtain ⟨⟨lock, hl⟩, hc, hp, rfl⟩ := Session.grant_ok h
  rw [run_guarded hl hc hp, hact]
  simp only [Lock.release_of_acquire hl, List.append_assoc]

/-- **An action that only answers leaves the session as it was.** -/
theorem run_guarded_of_answer {r : Except Error α} (h : s.grant mode ask path = (.ok c, seen))
    (hact : ∀ lock events, (act c).run ⟨{ s with lock }, events⟩ =
      (ofExcept r : Call α).run ⟨{ s with lock }, events⟩) :
    (guarded mode ask path act).run ⟨s, events⟩ = (ofExcept r : Call α).run ⟨s, events ++ seen⟩ := by
  cases r with
  | ok a => exact run_guarded_of_done (t := s.tree) h hact
  | error e => exact run_guarded_of_failed h hact

/-! ## The four calls are guarded -/

/-- What a call does to assign a policy once it is admitted. -/
def assignUnder (p : Policy) (c : Chain) : Call AssignOutcome := do
  let assignment ← edit (Tree.assign c p)
  let s ← session
  let status ← ofExcept (s.tree.status s.registry c)
  return { assignment, status }

/-- What a call does to take a policy away once it is admitted. -/
def unassignUnder (c : Chain) : Call UnassignOutcome := do
  let removed ← edit (Tree.unassign c)
  let s ← session
  let status ← ofExcept (s.tree.status s.registry c)
  return { removed, status }

/-- What a call answers about a target that must be there. -/
def answerInForce (c : Chain) : Call (Option Policy) := do
  if c.last?.isNone then throw (.targetMissing c.path)
  let s ← session
  ofExcept (s.tree.inForce s.registry c)

/-- What a call answers about a target that need not be there. -/
def answerCovered (c : Chain) : Call Bool := do
  let s ← session
  ofExcept (s.tree.isCovered s.registry c)

theorem assignPolicy_eq (path name : String) (retry : Option RetryToken) :
    assignPolicy path name retry = (do
      let p ← ofExcept ((← session).registry.require name)
      let outcome ← guarded .write (some .write) path (assignUnder p)
      record ⟨.set, outcome.status.path, outcome.assignment.attributes, retry⟩
      return outcome) := rfl

theorem unassignPolicy_eq (path : String) (retry : Option RetryToken) :
    unassignPolicy path retry = (do
      let outcome ← guarded .write (some .write) path unassignUnder
      if let some attributes := outcome.removed then
        record ⟨.removed, outcome.status.path, attributes, retry⟩
      return outcome) := rfl

theorem policyInForce_eq (path : String) :
    policyInForce path = guarded .read (some .read) path answerInForce := rfl

theorem isCovered_eq (path : String) :
    isCovered path = guarded .read none path answerCovered := rfl

end Call

/-! ## The status after a change -/

namespace Tree

/-- What is shown of a node as the target of a chain. -/
def statusAt (t : Tree) (r : Registry) (c : Chain) (n : Node) : Status :=
  { path := c.path, id := n.id, type := n.kind.type, target := n.target?,
    policy := (t.inForce r c).toOption.join }

/-- The tree with a policy given to a node. -/
def assigned (t : Tree) (d : NodeId) (n : Node) (p : Policy) : Tree :=
  t.setAttributes d (n.attributes.put (PolicyName.toAttribute p.name))

/-- The tree with a node's policy taken away. -/
def unassigned (t : Tree) (d : NodeId) (n : Node) : Tree :=
  t.setAttributes d (n.attributes.erase PolicyName.key)

/-- Taking out what is not there leaves the tree as it is. -/
theorem unassigned_of_none (hn : t.node? d = some n) (h : n.attributes.find? PolicyName.key = none) :
    t.unassigned d n = t := by
  rw [unassigned, AttributeSet.erase_of_find?_none h, setAttributes_self hn]

theorem status_of_targets (h : t.Targets c d n) (r : Registry) : t.status r c = .ok (t.statusAt r c n) := by
  unfold status statusAt
  rw [h.1, Option.bind_some, h.2]

/-- **A node whose attributes change is still there**, so its status can be shown. -/
theorem status_setAttributes (h : t.Targets c d n) (attributes : AttributeSet) (r : Registry) :
    (t.setAttributes d attributes).status r c = .ok ((t.setAttributes d attributes).statusAt r c n) :=
  status_of_targets ⟨h.1, node?_setAttributes_self h.2 attributes⟩ r

/-- Once a policy is assigned, the status of its target can be shown. -/
theorem status_of_run_assign {a : Assignment} {t' : Tree} (h : (assign c p).run t = .ok a t')
    (r : Registry) : ∃ status, t'.status r c = .ok status := by
  rcases t.directory_or_error c (.assignToNonDirectory c.path) with ⟨d, n, ht, hd⟩ | ⟨e, hd⟩
  · rw [run_assign ht hd] at h; cases h
    exact ⟨_, status_setAttributes ht _ r⟩
  · rw [run_assign_of_error hd] at h; cases h

theorem status_of_run_unassign {removed : Option (List Attribute)} {t' : Tree}
    (h : (unassign c).run t = .ok removed t') (r : Registry) : ∃ status, t'.status r c = .ok status := by
  rcases t.directory_or_error c (.unassignFromNonDirectory c.path) with ⟨d, n, ht, hd⟩ | ⟨e, hd⟩
  · rw [run_unassign ht hd] at h; cases h
    exact ⟨_, status_setAttributes ht _ r⟩
  · rw [run_unassign_of_error hd] at h; cases h

end Tree

namespace Session

/-- What assigning a policy to a directory answers. -/
def assigns (s : Session) (c : Chain) (d : NodeId) (n : Node) (p : Policy) : AssignOutcome :=
  ⟨⟨p, [PolicyName.toAttribute p.name],
      if (n.attributes.find? PolicyName.key).isSome then .replace else .create⟩,
    (s.tree.assigned d n p).statusAt s.registry c n⟩

/-- What taking a directory's policy away answers. -/
def unassigns (s : Session) (c : Chain) (d : NodeId) (n : Node) : UnassignOutcome :=
  ⟨(n.attributes.find? PolicyName.key).map ([·]), (s.tree.unassigned d n).statusAt s.registry c n⟩

end Session

namespace Call

theorem run_assignUnder (h : s.tree.Targets c d n) (hd : n.isDirectory) (p : Policy) :
    (assignUnder p c).run ⟨s, events⟩ =
      .ok (s.assigns c d n p) ⟨{ s with tree := s.tree.assigned d n p }, events⟩ := by
  simp only [assignUnder, EStateM.run_bind, run_edit, Tree.run_assign h hd, run_session]
  rw [Tree.status_setAttributes h]
  rfl

theorem run_assignUnder_of_error
    (h : s.tree.targetDirectory c (.assignToNonDirectory c.path) = .error e) (p : Policy) :
    (assignUnder p c).run ⟨s, events⟩ = .error e ⟨s, events⟩ := by
  simp only [assignUnder, EStateM.run_bind, run_edit, Tree.run_assign_of_error h]

theorem run_unassignUnder (h : s.tree.Targets c d n) (hd : n.isDirectory) :
    (unassignUnder c).run ⟨s, events⟩ =
      .ok (s.unassigns c d n) ⟨{ s with tree := s.tree.unassigned d n }, events⟩ := by
  simp only [unassignUnder, EStateM.run_bind, run_edit, Tree.run_unassign h hd, run_session]
  rw [Tree.status_setAttributes h]
  rfl

theorem run_unassignUnder_of_error
    (h : s.tree.targetDirectory c (.unassignFromNonDirectory c.path) = .error e) :
    (unassignUnder c).run ⟨s, events⟩ = .error e ⟨s, events⟩ := by
  simp only [unassignUnder, EStateM.run_bind, run_edit, Tree.run_unassign_of_error h]

end Call

/-! ## Endings -/

namespace Session

theorem perform_assignPolicy_of_notEnabled (hp : s.registry.require name = .error e) :
    s.perform (Call.assignPolicy path name retry) = ⟨.error e, [], s⟩ := by
  apply perform_of_error
  rw [Call.assignPolicy_eq]
  simp only [EStateM.run_bind, Call.run_session, hp, run_ofExcept_error]

theorem perform_assignPolicy_of_refused (hp : s.registry.require name = .ok p)
    (h : s.grant .write (some .write) path = (.error e, seen)) :
    s.perform (Call.assignPolicy path name retry) = ⟨.error e, seen, s⟩ := by
  apply perform_of_error
  rw [Call.assignPolicy_eq]
  simp only [EStateM.run_bind, Call.run_session, hp, run_ofExcept_ok, Call.run_guarded_of_refused h,
    List.nil_append]

theorem perform_assignPolicy_of_noDirectory (hp : s.registry.require name = .ok p)
    (h : s.grant .write (some .write) path = (.ok c, seen))
    (hd : s.tree.targetDirectory c (.assignToNonDirectory c.path) = .error e) :
    s.perform (Call.assignPolicy path name retry) = ⟨.error e, seen, s⟩ := by
  have hrun : (Call.guarded .write (some .write) path (Call.assignUnder p)).run ⟨s, []⟩ =
      .error e ⟨s, [] ++ seen⟩ :=
    Call.run_guarded_of_failed h fun lock _ => Call.run_assignUnder_of_error (s := { s with lock }) hd p
  apply perform_of_error
  rw [Call.assignPolicy_eq]
  simp only [EStateM.run_bind, Call.run_session, hp, run_ofExcept_ok, hrun, List.nil_append]

/-- **Assigning a policy to a directory, once admitted, succeeds**, and is recorded. -/
theorem perform_assignPolicy_of_directory (hp : s.registry.require name = .ok p)
    (h : s.grant .write (some .write) path = (.ok c, seen)) (ht : s.tree.Targets c d n)
    (hd : n.isDirectory) :
    s.perform (Call.assignPolicy path name retry) =
      ⟨.ok (s.assigns c d n p), seen ++ [.audit c.path],
        { s with
          tree := s.tree.assigned d n p
          log := s.log.record ⟨.set, c.path, [PolicyName.toAttribute p.name], retry⟩ }⟩ := by
  have hrun : (Call.guarded .write (some .write) path (Call.assignUnder p)).run ⟨s, []⟩ =
      .ok (s.assigns c d n p) ⟨{ s with tree := s.tree.assigned d n p }, [] ++ seen⟩ :=
    Call.run_guarded_of_done h fun lock _ => Call.run_assignUnder (s := { s with lock }) ht hd p
  apply perform_of_ok
  rw [Call.assignPolicy_eq]
  simp only [EStateM.run_bind, Call.run_session, hp, run_ofExcept_ok, hrun]
  rfl

theorem perform_unassignPolicy_of_refused (h : s.grant .write (some .write) path = (.error e, seen)) :
    s.perform (Call.unassignPolicy path retry) = ⟨.error e, seen, s⟩ := by
  apply perform_of_error
  rw [Call.unassignPolicy_eq]
  simp only [EStateM.run_bind, Call.run_guarded_of_refused h, List.nil_append]

theorem perform_unassignPolicy_of_noDirectory (h : s.grant .write (some .write) path = (.ok c, seen))
    (hd : s.tree.targetDirectory c (.unassignFromNonDirectory c.path) = .error e) :
    s.perform (Call.unassignPolicy path retry) = ⟨.error e, seen, s⟩ := by
  have hrun : (Call.guarded .write (some .write) path Call.unassignUnder).run ⟨s, []⟩ =
      .error e ⟨s, [] ++ seen⟩ :=
    Call.run_guarded_of_failed h fun lock _ => Call.run_unassignUnder_of_error (s := { s with lock }) hd
  apply perform_of_error
  rw [Call.unassignPolicy_eq]
  simp only [EStateM.run_bind, hrun, List.nil_append]

/-- **Taking a directory's policy away, once admitted, succeeds**; it is recorded if there was one. -/
theorem perform_unassignPolicy_of_directory (h : s.grant .write (some .write) path = (.ok c, seen))
    (ht : s.tree.Targets c d n) (hd : n.isDirectory) :
    s.perform (Call.unassignPolicy path retry) =
      match n.attributes.find? PolicyName.key with
      | none => ⟨.ok (s.unassigns c d n), seen, s⟩
      | some a =>
        ⟨.ok (s.unassigns c d n), seen ++ [.audit c.path],
          { s with
            tree := s.tree.unassigned d n
            log := s.log.record ⟨.removed, c.path, [a], retry⟩ }⟩ := by
  have hrun : (Call.guarded .write (some .write) path Call.unassignUnder).run ⟨s, []⟩ =
      .ok (s.unassigns c d n) ⟨{ s with tree := s.tree.unassigned d n }, [] ++ seen⟩ :=
    Call.run_guarded_of_done h fun lock _ => Call.run_unassignUnder (s := { s with lock }) ht hd
  cases ha : n.attributes.find? PolicyName.key with
  | none =>
    have hremoved : (s.unassigns c d n).removed = none := by simp only [unassigns, ha, Option.map_none]
    have hsame : s.tree.unassigned d n = s.tree := Tree.unassigned_of_none ht.2 ha
    apply perform_of_ok
    rw [Call.unassignPolicy_eq]
    simp only [EStateM.run_bind, hrun, hremoved, hsame]
    rfl
  | some a =>
    have hremoved : (s.unassigns c d n).removed = some [a] := by simp only [unassigns, ha, Option.map_some]
    apply perform_of_ok
    rw [Call.unassignPolicy_eq]
    simp only [EStateM.run_bind, hrun, hremoved]
    rfl

/-- **Assigning fails and changes nothing**, or it is admitted on a directory. A policy that is not enabled
is turned down before anything is seen; otherwise all is seen that belongs to the grant. -/
theorem assignPolicy_cases (s : Session) (path name : String) (retry : Option RetryToken) :
    (∃ e events, s.perform (Call.assignPolicy path name retry) = ⟨.error e, events, s⟩ ∧
        (s.registry.require name = .error e ∧ events = [] ∨
          (∃ p, s.registry.require name = .ok p) ∧ events = (s.grant .write (some .write) path).2)) ∨
      ∃ p c d n seen, s.registry.require name = .ok p ∧
        s.grant .write (some .write) path = (.ok c, seen) ∧ s.tree.Targets c d n ∧ n.isDirectory := by
  cases hp : s.registry.require name with
  | error e => exact Or.inl ⟨e, [], perform_assignPolicy_of_notEnabled hp, Or.inl ⟨rfl, rfl⟩⟩
  | ok p =>
    cases h : s.grant .write (some .write) path with
    | mk result seen =>
      cases result with
      | error e => exact Or.inl ⟨e, seen, perform_assignPolicy_of_refused hp h, Or.inr ⟨⟨p, rfl⟩, rfl⟩⟩
      | ok c =>
        rcases s.tree.directory_or_error c (.assignToNonDirectory c.path) with ⟨d, n, ht, hd⟩ | ⟨e, hd⟩
        · exact Or.inr ⟨p, c, d, n, seen, rfl, rfl, ht, hd⟩
        · exact Or.inl ⟨e, seen, perform_assignPolicy_of_noDirectory hp h hd, Or.inr ⟨⟨p, rfl⟩, rfl⟩⟩

/-- **Taking a policy away fails and changes nothing**, or it is admitted on a directory. -/
theorem unassignPolicy_cases (s : Session) (path : String) (retry : Option RetryToken) :
    (∃ e, s.perform (Call.unassignPolicy path retry) =
        ⟨.error e, (s.grant .write (some .write) path).2, s⟩) ∨
      ∃ c d n seen, s.grant .write (some .write) path = (.ok c, seen) ∧ s.tree.Targets c d n ∧
        n.isDirectory := by
  cases h : s.grant .write (some .write) path with
  | mk result seen =>
    cases result with
    | error e => exact Or.inl ⟨e, perform_unassignPolicy_of_refused h⟩
    | ok c =>
      rcases s.tree.directory_or_error c (.unassignFromNonDirectory c.path) with ⟨d, n, ht, hd⟩ | ⟨e, hd⟩
      · exact Or.inr ⟨c, d, n, seen, rfl, ht, hd⟩
      · exact Or.inl ⟨e, perform_unassignPolicy_of_noDirectory h hd⟩

/-- All that a successful call has done to assign a policy. -/
theorem assignPolicy_ok {o : AssignOutcome} {s' : Session}
    (h : s.perform (Call.assignPolicy path name retry) = ⟨.ok o, events, s'⟩) :
    ∃ p c d n, s.registry.require name = .ok p ∧ s.tree.chain path = .ok c ∧ s.tree.Targets c d n ∧
      n.isDirectory ∧ o = s.assigns c d n p ∧
      s' = { s with
        tree := s.tree.assigned d n p
        log := s.log.record ⟨.set, c.path, [PolicyName.toAttribute p.name], retry⟩ } := by
  rcases s.assignPolicy_cases path name retry with ⟨e, events', h', -⟩ | ⟨p, c, d, n, seen, hp, ha, ht, hd⟩
  · rw [h'] at h; cases h
  · rw [perform_assignPolicy_of_directory hp ha ht hd] at h; cases h
    exact ⟨p, c, d, n, hp, (grant_ok ha).2.1, ht, hd, rfl, rfl⟩

/-- All that a successful call has done to take a policy away. -/
theorem unassignPolicy_ok {o : UnassignOutcome} {s' : Session}
    (h : s.perform (Call.unassignPolicy path retry) = ⟨.ok o, events, s'⟩) :
    ∃ c d n, s.tree.chain path = .ok c ∧ s.tree.Targets c d n ∧ n.isDirectory ∧ o = s.unassigns c d n ∧
      s'.tree = s.tree.unassigned d n ∧ s'.registry = s.registry := by
  rcases s.unassignPolicy_cases path retry with ⟨e, h'⟩ | ⟨c, d, n, seen, ha, ht, hd⟩
  · rw [h'] at h; cases h
  · rw [perform_unassignPolicy_of_directory ha ht hd] at h
    refine ⟨c, d, n, (grant_ok ha).2.1, ht, hd, ?_⟩
    cases hf : n.attributes.find? PolicyName.key with
    | none => rw [hf] at h; cases h; exact ⟨rfl, (Tree.unassigned_of_none ht.2 hf).symm, rfl⟩
    | some a => rw [hf] at h; cases h; exact ⟨rfl, rfl, rfl⟩

theorem perform_policyInForce_of_refused (h : s.grant .read (some .read) path = (.error e, seen)) :
    s.perform (Call.policyInForce path) = ⟨.error e, seen, s⟩ := by
  apply perform_of_error
  rw [Call.policyInForce_eq, Call.run_guarded_of_refused h, List.nil_append]

theorem perform_policyInForce_of_granted (h : s.grant .read (some .read) path = (.ok c, seen)) :
    s.perform (Call.policyInForce path) =
      ⟨if c.last?.isNone then .error (.targetMissing c.path) else s.tree.inForce s.registry c, seen, s⟩ := by
  apply perform_of_answer
  rw [Call.policyInForce_eq]
  refine Call.run_guarded_of_answer h fun lock events => ?_
  rw [Call.answerInForce]
  by_cases hl : c.last?.isNone
  · rw [if_pos hl, if_pos hl]; rfl
  · rw [if_neg hl, if_neg hl]; rfl

theorem perform_isCovered_of_refused (h : s.grant .read none path = (.error e, seen)) :
    s.perform (Call.isCovered path) = ⟨.error e, seen, s⟩ := by
  apply perform_of_error
  rw [Call.isCovered_eq, Call.run_guarded_of_refused h, List.nil_append]

theorem perform_isCovered_of_granted (h : s.grant .read none path = (.ok c, seen)) :
    s.perform (Call.isCovered path) = ⟨s.tree.isCovered s.registry c, seen, s⟩ := by
  apply perform_of_answer
  rw [Call.isCovered_eq]
  exact Call.run_guarded_of_answer h fun lock events => rfl

/-- **A question comes to what is in force along the chain that it is granted.** It leaves the session as it
was, and all is seen of it that belongs to its grant. -/
theorem perform_policyInForce (s : Session) (path : String) :
    s.perform (Call.policyInForce path) =
      ⟨(s.grant .read (some .read) path).1.bind fun c =>
          if c.last?.isNone then .error (.targetMissing c.path) else s.tree.inForce s.registry c,
        (s.grant .read (some .read) path).2, s⟩ := by
  cases h : s.grant .read (some .read) path with
  | mk result seen =>
    cases result with
    | error e => exact perform_policyInForce_of_refused h
    | ok c => exact perform_policyInForce_of_granted h

theorem perform_isCovered (s : Session) (path : String) :
    s.perform (Call.isCovered path) =
      ⟨(s.grant .read none path).1.bind (s.tree.isCovered s.registry), (s.grant .read none path).2, s⟩ := by
  cases h : s.grant .read none path with
  | mk result seen =>
    cases result with
    | error e => exact perform_isCovered_of_refused h
    | ok c => exact perform_isCovered_of_granted h

theorem policyInForce_cases (s : Session) (path : String) :
    ∃ result, s.perform (Call.policyInForce path) = ⟨result, (s.grant .read (some .read) path).2, s⟩ :=
  ⟨_, s.perform_policyInForce path⟩

theorem isCovered_cases (s : Session) (path : String) :
    ∃ result, s.perform (Call.isCovered path) = ⟨result, (s.grant .read none path).2, s⟩ :=
  ⟨_, s.perform_isCovered path⟩

theorem policyInForce_session (s : Session) (path : String) :
    (s.perform (Call.policyInForce path)).session = s := by
  rw [perform_policyInForce]

theorem isCovered_session (s : Session) (path : String) :
    (s.perform (Call.isCovered path)).session = s := by
  rw [perform_isCovered]

/-! ## All or nothing -/

theorem assignPolicy_session_of_error
    (h : (s.perform (Call.assignPolicy path name retry)).result = .error e) :
    (s.perform (Call.assignPolicy path name retry)).session = s := by
  rcases s.assignPolicy_cases path name retry with ⟨e', events, hfail, -⟩ | ⟨p, c, d, n, seen, hp, hg, ht, hd⟩
  · rw [hfail]
  · -- an admitted call on a directory does not fail
    rw [perform_assignPolicy_of_directory hp hg ht hd] at h; cases h

theorem unassignPolicy_session_of_error
    (h : (s.perform (Call.unassignPolicy path retry)).result = .error e) :
    (s.perform (Call.unassignPolicy path retry)).session = s := by
  rcases s.unassignPolicy_cases path retry with ⟨e', hfail⟩ | ⟨c, d, n, seen, hg, ht, hd⟩
  · rw [hfail]
  · rw [perform_unassignPolicy_of_directory hg ht hd] at h
    cases ha : n.attributes.find? PolicyName.key with
    | none => rw [ha] at h; cases h
    | some a => rw [ha] at h; cases h

/-- **A changing call that fails leaves the session as it was**, tree and log included. What could still
fail after the change, the status, cannot: it is shown for whatever attributes the target and the nodes
above it carry. -/
theorem failed_call_keeps_session (s : Session) (path name : String) (retry : Option RetryToken) :
    (∀ e, (s.perform (Call.assignPolicy path name retry)).result = .error e →
        (s.perform (Call.assignPolicy path name retry)).session = s) ∧
      (∀ e, (s.perform (Call.unassignPolicy path retry)).result = .error e →
        (s.perform (Call.unassignPolicy path retry)).session = s) ∧
      (∀ (t t' : Tree) (r : Registry) (c : Chain) (p : Policy) (a : Assignment),
        (Tree.assign c p).run t = .ok a t' → ∃ status, t'.status r c = .ok status) ∧
      ∀ (t t' : Tree) (r : Registry) (c : Chain) (removed : Option (List Attribute)),
        (Tree.unassign c).run t = .ok removed t' → ∃ status, t'.status r c = .ok status := by
  refine ⟨?_, ?_, ?_, ?_⟩
  · intro e h; exact assignPolicy_session_of_error h
  · intro e h; exact unassignPolicy_session_of_error h
  · intro t t' r c p a h; exact Tree.status_of_run_assign h r
  · intro t t' r c removed h; exact Tree.status_of_run_unassign h r

/-- The session that the default configuration starts with. -/
def initial : Session :=
  { config := .default, registry := Registry.system.switch 1 true, lock := .free,
    tree := .empty, checker := .allowAll, log := .keeping [] }

/-- A missing target, a path that is none, and a directory whose own attribute is damaged below a
damaged root. -/
theorem failed_call_keeps_session_damaged :
    let c : Chain := ⟨"/a", [some 0, some 1]⟩
    let p : Policy := ⟨4, ⟨"xor", 2, 1⟩, systemCellSize⟩
    let t : Tree := ⟨[
      { id := 0, name := "", parent := none, kind := .directory ⟨[("a", 1)]⟩,
        attributes := ⟨[⟨PolicyName.key, [7]⟩]⟩ },
      { id := 1, name := "a", parent := some 0, kind := .emptyDirectory,
        attributes := ⟨[⟨PolicyName.key, []⟩]⟩ }]⟩
    (initial.perform (Call.assignPolicy "/b" "RS-6-3-1024k" none)).result = .error (.targetMissing "/b") ∧
      (initial.perform (Call.assignPolicy "/b" "RS-6-3-1024k" none)).session = initial ∧
      (initial.perform (Call.unassignPolicy "b" none)).result = .error (.relativePath "b") ∧
      (initial.perform (Call.unassignPolicy "b" none)).session = initial ∧
      (∃ a t', (Tree.assign c p).run t = .ok a t' ∧ ∃ status, t'.status .system c = .ok status) ∧
      ∃ removed t', (Tree.unassign c).run t = .ok removed t' ∧ ∃ status, t'.status .system c = .ok status := by
  intro c p t
  have h := failed_call_keeps_session initial
  have ht : t.Targets c 1 ⟨1, "a", some 0, .emptyDirectory, ⟨[⟨PolicyName.key, []⟩]⟩⟩ := ⟨rfl, rfl⟩
  exact ⟨rfl, (h "/b" "RS-6-3-1024k" none).1 (.targetMissing "/b") rfl, rfl,
    (h "b" "" none).2.1 (.relativePath "b") rfl,
    ⟨_, _, Tree.run_assign ht rfl p, (h "" "" none).2.2.1 _ _ _ _ _ _ (Tree.run_assign ht rfl p)⟩,
    ⟨_, _, Tree.run_unassign ht rfl, (h "" "" none).2.2.2 _ _ _ _ _ (Tree.run_unassign ht rfl)⟩⟩

end Session

end PolicyTree
