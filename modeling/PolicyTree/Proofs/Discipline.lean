import PolicyTree.Proofs.Moves

/-!
# The order of lock, permission and audit

* `Step.demand?`: what one of the four calls needs: the lock, a permission if any, and a path.
* `Orderly`: the six sequences of events that may be seen of a call. A record is handed to the audit log
  last, when the lock is given back.
* `Step.recordedBy`: the records that a step hands in, read off what was asked and what was answered.
* `calls_disciplined`: **every call is orderly, and a run records what its calls have answered**, with
  nothing besides.
-/

namespace PolicyTree

variable {α : Type} {s s' : Session} {x : Step} {c : Chain} {mode : LockMode} {ask : Option AccessMode}
  {path : String} {demand : Demand} {result : Except Error Value} {events seen : List Event}

/-- **What a call needs**: the lock, a permission if any, and a path. -/
structure Demand where
  mode : LockMode
  ask : Option AccessMode
  path : String

namespace Step

/-- What a step needs, if it is one of the four calls. -/
def demand? : Step → Option Demand
  | .assignPolicy path _ _ => some ⟨.write, some .write, path⟩
  | .unassignPolicy path _ => some ⟨.write, some .write, path⟩
  | .policyInForce path => some ⟨.read, some .read, path⟩
  | .isCovered path => some ⟨.read, none, path⟩
  | _ => none

mutual

/-- **The records that a step hands in**, as it was answered. A policy that was given or taken away is
recorded with the path shown in the status, the attributes of the answer, and the token of the request. -/
def recordedBy : Step → Answer → List AuditRecord
  | .assignPolicy _ _ retry, .traced (.ok (.assignOutcome o)) _ =>
    [⟨.set, o.status.path, o.assignment.attributes, retry⟩]
  | .unassignPolicy _ retry, .traced (.ok (.unassignOutcome o)) _ =>
    o.removed.toList.map fun attributes => ⟨.removed, o.status.path, attributes, retry⟩
  | .withLock _ steps, .nested answers => recordedIn steps answers
  | _, _ => []

/-- The records that some steps hand in, as they were answered. -/
def recordedIn : List Step → List Answer → List AuditRecord
  | first :: rest, answer :: answers => first.recordedBy answer ++ recordedIn rest answers
  | _, _ => []

end

end Step

/-- Any number of records more, one after the other. -/
def AuditTrail.recordAll (log : AuditTrail) (records : List AuditRecord) : AuditTrail :=
  records.foldl AuditTrail.record log

theorem AuditTrail.recordAll_append (log : AuditTrail) (r₁ r₂ : List AuditRecord) :
    log.recordAll (r₁ ++ r₂) = (log.recordAll r₁).recordAll r₂ := List.foldl_append

/-- **The events that may be seen of a call**, six sequences in all. Paths are seen in canonical form. -/
inductive Orderly (demand : Demand) : List Event → Prop
  | unseen : Orderly demand []
  | refused : Orderly demand [.fail demand.mode]
  | held : Orderly demand [.acquire demand.mode, .release demand.mode]
  | checked {names : List String} {ask : AccessMode} (hp : Path.normalize demand.path = .ok names)
      (ha : demand.ask = some ask) :
      Orderly demand [.acquire demand.mode, .check ask (Path.join names), .release demand.mode]
  | heldRecorded {names : List String} (hp : Path.normalize demand.path = .ok names) :
      Orderly demand [.acquire demand.mode, .release demand.mode, .audit (Path.join names)]
  | checkedRecorded {names : List String} {ask : AccessMode} (hp : Path.normalize demand.path = .ok names)
      (ha : demand.ask = some ask) :
      Orderly demand [.acquire demand.mode, .check ask (Path.join names), .release demand.mode,
        .audit (Path.join names)]

namespace Session

/-- **What is true of a call** that was answered with a result, seen as some events, and led to another
session. -/
structure Disciplined (s : Session) (x : Step) (demand : Demand) (result : Except Error Value)
    (events : List Event) (s' : Session) : Prop where
  orderly : Orderly demand events
  /-- A policy that is not enabled is turned down before anything is seen, and no other call is. -/
  unseen_iff : events = [] ↔
    ∃ path name retry, x = .assignPolicy path name retry ∧ s.registry.enabledNamed? name = none
  /-- Under the lock, permission is asked if the path can be followed and access is checked. -/
  checked_iff : .acquire demand.mode ∈ events →
    ((∃ ask path, .check ask path ∈ events) ↔
      (∃ names, Path.normalize demand.path = .ok names) ∧ s.config.permissions ∧ x ≠ .isCovered demand.path)
  /-- A record is handed in exactly if a policy was given, or one was taken away. -/
  audited_iff : (∃ path, .audit path ∈ events) ↔
    (∃ path name retry o, x = .assignPolicy path name retry ∧ result = .ok (.assignOutcome o)) ∨
      ∃ path retry o attributes, x = .unassignPolicy path retry ∧ result = .ok (.unassignOutcome o) ∧
        o.removed = some attributes
  audited_path_iff : ∀ path, .audit path ∈ events ↔ ∃ r ∈ x.recordedBy (.traced result events), r.path = path
  log_eq : s'.log = s.log.recordAll (x.recordedBy (.traced result events))
  lock_eq : s'.lock = s.lock
  /-- A call that hands in no record leaves the session as it was. -/
  unchanged : (∀ path, .audit path ∉ events) → s' = s

/-! ## What is seen of a grant -/

/-- The checker is asked if access is checked and there is something to ask. -/
theorem questions_cases (s : Session) (c : Chain) (ask : Option AccessMode) :
    (s.questions c ask = [] ∧ ¬(s.config.permissions ∧ ask.isSome)) ∨
      ∃ a, ask = some a ∧ s.config.permissions ∧ s.questions c ask = [.check a c.path] := by
  cases ask with
  | none => exact Or.inl ⟨rfl, by simp⟩
  | some a =>
    by_cases hp : s.config.permissions
    · exact Or.inr ⟨a, rfl, hp, by rw [questions, if_pos hp]⟩
    · exact Or.inl ⟨by rw [questions, if_neg hp], fun h => hp h.1⟩

/-- **What is seen of a grant**: a refusal, the lock, or the lock and a question. -/
theorem grant_seen (s : Session) (mode : LockMode) (ask : Option AccessMode) (path : String) :
    (s.grant mode ask path).2 = [.fail mode] ∨
      ((s.grant mode ask path).2 = [.acquire mode, .release mode] ∧
        ¬((∃ names, Path.normalize path = .ok names) ∧ s.config.permissions ∧ ask.isSome)) ∨
      ∃ names a, Path.normalize path = .ok names ∧ s.config.permissions ∧ ask = some a ∧
        (s.grant mode ask path).2 = [.acquire mode, .check a (Path.join names), .release mode] := by
  unfold grant
  cases s.lock.acquire mode with
  | error why => exact Or.inl rfl
  | ok lock =>
    cases hc : s.tree.chain path with
    | error e =>
      refine Or.inr (Or.inl ⟨rfl, ?_⟩)
      rintro ⟨⟨names, hn⟩, -⟩
      rw [Tree.chain_eq_ok_iff.2 ⟨names, hn, rfl⟩] at hc
      cases hc
    | ok c =>
      obtain ⟨names, hn, rfl⟩ := Tree.chain_eq_ok_iff.1 hc
      rcases s.questions_cases ⟨Path.join names, s.tree.trail (some Tree.root) names⟩ ask with
        ⟨hq, hask⟩ | ⟨a, ha, hp, hq⟩
      · exact Or.inr (Or.inl ⟨by simp only [hq]; rfl, fun h => hask h.2⟩)
      · exact Or.inr (Or.inr ⟨names, a, hn, hp, ha, by simp only [hq]; rfl⟩)

theorem grant_seen_ne_nil (s : Session) (mode : LockMode) (ask : Option AccessMode) (path : String) :
    (s.grant mode ask path).2 ≠ [] := by
  rcases s.grant_seen mode ask path with h | ⟨h, -⟩ | ⟨names, a, -, -, -, h⟩ <;> rw [h] <;> simp

theorem audit_notMem_grant (s : Session) (mode : LockMode) (ask : Option AccessMode) (path : String)
    {p : String} : .audit p ∉ (s.grant mode ask path).2 := by
  rcases s.grant_seen mode ask path with h | ⟨h, -⟩ | ⟨names, a, -, -, -, h⟩ <;> rw [h] <;> simp

/-- Permission is asked under the lock, if there is a path and access is checked. -/
theorem check_mem_grant_iff (h : .acquire mode ∈ (s.grant mode ask path).2) :
    (∃ a p, .check a p ∈ (s.grant mode ask path).2) ↔
      (∃ names, Path.normalize path = .ok names) ∧ s.config.permissions ∧ ask.isSome := by
  rcases s.grant_seen mode ask path with hg | ⟨hg, hno⟩ | ⟨names, a, hn, hp, ha, hg⟩
  · rw [hg] at h; simp at h
  · rw [hg]
    exact iff_of_false (by simp) hno
  · rw [hg]
    exact iff_of_true ⟨a, Path.join names, by simp⟩ ⟨⟨names, hn⟩, hp, by rw [ha]; rfl⟩

theorem orderly_grant (s : Session) (demand : Demand) :
    Orderly demand (s.grant demand.mode demand.ask demand.path).2 := by
  rcases s.grant_seen demand.mode demand.ask demand.path with h | ⟨h, -⟩ | ⟨names, a, hn, -, ha, h⟩
  · rw [h]; exact .refused
  · rw [h]; exact .held
  · rw [h]; exact .checked hn ha

/-- A record handed in after a grant is the last that is seen. -/
theorem orderly_recorded {demand : Demand}
    (h : s.grant demand.mode demand.ask demand.path = (.ok c, seen)) :
    Orderly demand (seen ++ [.audit c.path]) := by
  obtain ⟨-, hc, -, rfl⟩ := grant_ok h
  obtain ⟨names, hn, rfl⟩ := Tree.chain_eq_ok_iff.1 hc
  rcases s.questions_cases ⟨Path.join names, s.tree.trail (some Tree.root) names⟩ demand.ask with
    ⟨hq, -⟩ | ⟨a, ha, -, hq⟩
  · rw [hq]; exact .heldRecorded hn
  · rw [hq]; exact .checkedRecorded hn ha

end Session

/-! ## Records -/

namespace Step

/-- All calls but one ask for permission. -/
theorem ask_isSome_iff {demand : Demand} (hx : x.demand? = some demand) :
    demand.ask.isSome ↔ x ≠ .isCovered demand.path := by
  cases x <;> cases hx <;> simp

theorem recordedBy_error {e : Error} : x.recordedBy (.traced (.error e) events) = [] := by
  cases x <;> simp [recordedBy]

/-- **A call hands in a record if it gave a policy, or took one away.** -/
theorem recordedBy_ne_nil_iff (events : List Event) :
    x.recordedBy (.traced result events) ≠ [] ↔
      (∃ path name retry o, x = .assignPolicy path name retry ∧ result = .ok (.assignOutcome o)) ∨
        ∃ path retry o attributes, x = .unassignPolicy path retry ∧ result = .ok (.unassignOutcome o) ∧
          o.removed = some attributes := by
  cases result with
  | error e => simp [recordedBy_error]
  | ok v => cases x <;> cases v <;> simp [recordedBy, Option.ne_none_iff_exists']

end Step

namespace Session

/-! ## Every call is disciplined -/

/-- **A call that hands in no record**, and of which all is seen that belongs to its grant. -/
theorem Disciplined.kept (hx : x.demand? = some demand)
    (hseen : ¬∃ path name retry, x = .assignPolicy path name retry ∧ s.registry.enabledNamed? name = none)
    (hnone : ∀ events, x.recordedBy (.traced result events) = []) :
    s.Disciplined x demand result (s.grant demand.mode demand.ask demand.path).2 s where
  orderly := s.orderly_grant demand
  unseen_iff := iff_of_false (s.grant_seen_ne_nil _ _ _) hseen
  checked_iff := by
    intro h
    rw [check_mem_grant_iff h, Step.ask_isSome_iff hx]
  audited_iff := by
    refine iff_of_false (fun ⟨_, h⟩ => s.audit_notMem_grant _ _ _ h) ?_
    rw [← Step.recordedBy_ne_nil_iff []]
    exact fun h => h (hnone [])
  audited_path_iff := by
    intro path
    rw [hnone]
    exact iff_of_false (s.audit_notMem_grant _ _ _) (by simp)
  log_eq := by rw [hnone]; rfl
  lock_eq := rfl
  unchanged := fun _ => rfl

/-- **A call that hands in a record** once it was granted a chain. -/
theorem Disciplined.recorded {r : AuditRecord} (hx : x.demand? = some demand)
    (h : s.grant demand.mode demand.ask demand.path = (.ok c, seen))
    (hseen : ¬∃ path name retry, x = .assignPolicy path name retry ∧ s.registry.enabledNamed? name = none)
    (hr : ∀ events, x.recordedBy (.traced result events) = [r]) (hpath : r.path = c.path)
    (hlog : s'.log = s.log.record r) (hlock : s'.lock = s.lock) :
    s.Disciplined x demand result (seen ++ [.audit c.path]) s' where
  orderly := orderly_recorded h
  unseen_iff := iff_of_false (by simp) hseen
  checked_iff := by
    intro hm
    have hgrant : (s.grant demand.mode demand.ask demand.path).2 = seen := by rw [h]
    have hacquire : .acquire demand.mode ∈ (s.grant demand.mode demand.ask demand.path).2 := by
      rw [hgrant]; simpa using hm
    rw [← Step.ask_isSome_iff hx, ← check_mem_grant_iff hacquire, hgrant]
    simp
  audited_iff := by
    refine iff_of_true ⟨c.path, by simp⟩ ?_
    rw [← Step.recordedBy_ne_nil_iff [], hr]
    exact List.cons_ne_nil r []
  audited_path_iff := by
    intro path
    have hbefore : .audit path ∉ seen := by
      have hno := s.audit_notMem_grant demand.mode demand.ask demand.path (p := path)
      rwa [h] at hno
    rw [hr, List.mem_append]
    simp [hbefore, hpath, eq_comm]
  log_eq := by rw [hr, hlog]; rfl
  lock_eq := hlock
  unchanged := fun hno => absurd (List.mem_append_right seen List.mem_cons_self) (hno c.path)

/-- **A policy that is not enabled**: nothing is seen, nothing is done. -/
theorem Disciplined.unseen {path name : String} {retry : Option RetryToken} {e : Error}
    (hnone : s.registry.enabledNamed? name = none) :
    s.Disciplined (.assignPolicy path name retry) ⟨.write, some .write, path⟩ (.error e) [] s where
  orderly := .unseen
  unseen_iff := iff_of_true rfl ⟨path, name, retry, rfl, hnone⟩
  checked_iff := by intro h; simp at h
  audited_iff := by simp
  audited_path_iff := by intro p; simp [Step.recordedBy_error]
  log_eq := by rw [Step.recordedBy_error]; rfl
  lock_eq := rfl
  unchanged := fun _ => rfl

theorem disciplined_assignPolicy (s : Session) (path name : String) (retry : Option RetryToken) :
    ∃ result events s', s.step (.assignPolicy path name retry) = (.traced result events, s') ∧
      s.Disciplined (.assignPolicy path name retry) ⟨.write, some .write, path⟩ result events s' := by
  have hseen : ∀ p, s.registry.require name = .ok p → ¬∃ path' name' retry',
      Step.assignPolicy path name retry = .assignPolicy path' name' retry' ∧
        s.registry.enabledNamed? name' = none := by
    rintro p hp ⟨path', name', retry', ⟨⟩, hnone⟩
    rw [Registry.require_eq_ok_iff.1 hp] at hnone
    cases hnone
  rcases s.assignPolicy_cases path name retry with ⟨e, events, h, hend⟩ | ⟨p, c, d, n, seen, hp, hg, ht, hd⟩
  · refine ⟨.error e, events, s, traced_map h, ?_⟩
    rcases hend with ⟨hp, rfl⟩ | ⟨⟨p, hp⟩, rfl⟩
    · refine .unseen (Option.eq_none_iff_forall_ne_some.2 fun p hsome => ?_)
      rw [Registry.require_eq_ok_iff.2 hsome] at hp
      cases hp
    · exact .kept rfl (hseen p hp) fun _ => Step.recordedBy_error
  · have h : s.perform (Call.assignPolicy path name retry) = _ :=
      perform_assignPolicy_of_directory hp hg ht hd
    exact ⟨_, _, _, traced_map h, .recorded rfl hg (hseen p hp) (fun _ => rfl) rfl rfl rfl⟩

theorem disciplined_unassignPolicy (s : Session) (path : String) (retry : Option RetryToken) :
    ∃ result events s', s.step (.unassignPolicy path retry) = (.traced result events, s') ∧
      s.Disciplined (.unassignPolicy path retry) ⟨.write, some .write, path⟩ result events s' := by
  rcases s.unassignPolicy_cases path retry with ⟨e, h⟩ | ⟨c, d, n, seen, hg, ht, hd⟩
  · exact ⟨.error e, _, _, traced_map h, .kept rfl (by simp) fun _ => Step.recordedBy_error⟩
  · have h : s.perform (Call.unassignPolicy path retry) = _ := perform_unassignPolicy_of_directory hg ht hd
    cases ha : n.attributes.find? PolicyName.key with
    | none =>
      -- there was nothing to take away, so nothing is recorded
      have hseen : seen = (s.grant .write (some .write) path).2 := by rw [hg]
      rw [ha, hseen] at h
      refine ⟨_, _, _, traced_map h, .kept rfl (by simp) fun _ => ?_⟩
      simp [Except.map, Step.recordedBy, unassigns, ha]
    | some a =>
      rw [ha] at h
      refine ⟨_, _, _, traced_map h,
        .recorded (r := ⟨.removed, c.path, [a], retry⟩) rfl hg (by simp) (fun _ => ?_) rfl rfl rfl⟩
      simp [Except.map, Step.recordedBy, unassigns, Tree.statusAt, ha]

theorem disciplined_policyInForce (s : Session) (path : String) :
    ∃ result events s', s.step (.policyInForce path) = (.traced result events, s') ∧
      s.Disciplined (.policyInForce path) ⟨.read, some .read, path⟩ result events s' := by
  obtain ⟨r, h⟩ := s.policyInForce_cases path
  refine ⟨_, _, _, traced_map h, .kept rfl (by simp) fun _ => ?_⟩
  cases r <;> rfl

theorem disciplined_isCovered (s : Session) (path : String) :
    ∃ result events s', s.step (.isCovered path) = (.traced result events, s') ∧
      s.Disciplined (.isCovered path) ⟨.read, none, path⟩ result events s' := by
  obtain ⟨r, h⟩ := s.isCovered_cases path
  refine ⟨_, _, _, traced_map h, .kept rfl (by simp) fun _ => ?_⟩
  cases r <;> rfl

/-- **Each of the four calls is disciplined.** -/
theorem disciplined_step (s : Session) (hx : x.demand? = some demand) :
    ∃ result events s', s.step x = (.traced result events, s') ∧
      s.Disciplined x demand result events s' := by
  cases x with
  | assignPolicy path name retry => cases hx; exact s.disciplined_assignPolicy path name retry
  | unassignPolicy path retry => cases hx; exact s.disciplined_unassignPolicy path retry
  | policyInForce path => cases hx; exact s.disciplined_policyInForce path
  | isCovered path => cases hx; exact s.disciplined_isCovered path
  | _ => cases hx

/-! ## The log of a run -/

theorem log_step_of_demand (s : Session) (hx : x.demand? = some demand) :
    (s.step x).2.log = s.log.recordAll (x.recordedBy (s.step x).1) := by
  obtain ⟨result, events, s', h, hd⟩ := s.disciplined_step hx
  rw [h]
  exact hd.log_eq

theorem log_change (s : Session) (c : TreeChange) :
    (s.perform (Call.locked .write c.perform)).session.log = s.log := by
  obtain ⟨t, -, h⟩ := @session_change (fun _ => True) s c fun _ _ => trivial
  rw [h]

mutual

/-- **A step records what its calls have answered**, and nothing besides. -/
theorem log_step (s : Session) : ∀ x : Step,
    (s.step x).2.log = s.log.recordAll (x.recordedBy (s.step x).1)
  | .assignPolicy _ _ _ => s.log_step_of_demand rfl
  | .unassignPolicy _ _ => s.log_step_of_demand rfl
  | .policyInForce _ => s.log_step_of_demand rfl
  | .isCovered _ => s.log_step_of_demand rfl
  | .registry _ => rfl
  | .config => rfl
  | .log => rfl
  | .change c => s.log_change c
  | .query q => by simp only [step, plain, query_session]; rfl
  | .withLock mode steps => by
    simp only [step]
    cases s.lock.acquire mode with
    | error why => rfl
    | ok lock => exact log_run { s with lock } steps
  | .poison => rfl

/-- **A run records what its calls have answered**, in their order. -/
theorem log_run (s : Session) : ∀ steps : List Step,
    (s.run steps).2.log = s.log.recordAll (Step.recordedIn steps (s.run steps).1)
  | [] => rfl
  | first :: rest => by
    simp only [run, Step.recordedIn]
    rw [log_run (s.step first).2 rest, log_step s first, AuditTrail.recordAll_append]

end

/-- **The discipline of lock, permission and audit.** Whatever is asked of a session, each of the four
calls is answered, seen and recorded as it should be, and at the end of any run the log holds what the
calls of the run have recorded, in their order, and nothing besides. -/
theorem calls_disciplined (s : Session) :
    (∀ x demand, x.demand? = some demand → ∃ result events s', s.step x = (.traced result events, s') ∧
      s.Disciplined x demand result events s') ∧
      ∀ steps, (s.run steps).2.log = s.log.recordAll (Step.recordedIn steps (s.run steps).1) := by
  refine ⟨?_, ?_⟩
  · intro x demand hx; exact s.disciplined_step hx
  · intro steps; exact s.log_run steps

/-- The root is given a policy, under a lock that is held, which refuses, and then alone; it is taken away
twice. -/
theorem calls_disciplined_root :
    let x : Step := .assignPolicy "//" "RS-6-3-1024k" (some ⟨7, 1⟩)
    let a : Attribute := PolicyName.toAttribute "RS-6-3-1024k"
    let steps : List Step := [
      .withLock .read [x, .isCovered "/b"], x, .unassignPolicy "/a/.." none, .unassignPolicy "/" none]
    let records : List AuditRecord := [⟨.set, "/", [a], some ⟨7, 1⟩⟩, ⟨.removed, "/", [a], none⟩]
    x.demand? = some ⟨.write, some .write, "//"⟩ ∧
      (∃ result s', initial.step x =
          (.traced result [.acquire .write, .check .write "/", .release .write, .audit "/"], s') ∧
        initial.Disciplined x ⟨.write, some .write, "//"⟩ result
          [.acquire .write, .check .write "/", .release .write, .audit "/"] s' ∧
        s'.log = .keeping (records.take 1)) ∧
      Step.recordedIn steps (initial.run steps).1 = records ∧
      (initial.run steps).2.log = .keeping records := by
  intro x a steps records
  obtain ⟨hcalls, hrun⟩ := calls_disciplined initial
  obtain ⟨result, events, s', h, hd⟩ := hcalls x ⟨.write, some .write, "//"⟩ rfl
  have hrecords : Step.recordedIn steps (initial.run steps).1 = records := rfl
  refine ⟨rfl, ?_, hrecords, ?_⟩
  · obtain ⟨⟨rfl, rfl⟩, rfl⟩ := Prod.mk.inj h
    exact ⟨_, _, rfl, hd, rfl⟩
  · rw [hrun, hrecords]; rfl

end Session

end PolicyTree
