import PolicyTree.Proofs.Moves

/-!
# Steps under a lock that keeps writers out

A lock that somebody holds lets nobody write, and neither does a poisoned one. Then nothing but the registry
can change, however many steps are done and however deep they are nested.

* `Step.lockMode?`: what a step takes the lock for. `step_of_refused`: **a step that is refused the lock is
  turned down** (`Step.turnedDown`) and changes nothing.
* `run_of_keepsOut`: **where writers are kept out, a run comes to its operations on the registry**
  (`Step.operationsIn`).
* `answer_of_readers`: readers do not see each other: their number does not matter to any answer.
* `Session.Takes`: a run takes a step, perhaps inside others, in a session.
* `nothing_changes_while_held`: **nothing changes under a held or a poisoned lock.**
-/

namespace PolicyTree

variable {α : Type} {s s' : Session} {x : Step} {steps : List Step} {lock lock' : Lock} {mode : LockMode}
  {why : Refusal}

/-! ## Locks that keep writers out -/

namespace Lock

/-- A lock of the kind that counts its holders. -/
def CountsHolders (lock : Lock) : Prop := ∀ poisoned, lock ≠ .poisonable poisoned

/-- Nobody can take the lock for writing. -/
def KeepsOut (lock : Lock) : Prop := ∃ why, lock.acquire .write = .error why

/-- Nobody can take the lock at all. -/
def Closed (lock : Lock) : Prop := ∀ mode, ∃ why, lock.acquire mode = .error why

theorem keepsOut_shared (n : Nat) : (shared (n + 1)).KeepsOut := ⟨.held, rfl⟩

theorem Closed.keepsOut (hclosed : lock.Closed) : lock.KeepsOut := hclosed .write

theorem closed_exclusive : exclusive.Closed := by
  intro mode
  cases mode with
  | read => exact ⟨.heldForWriting, rfl⟩
  | write => exact ⟨.held, rfl⟩

theorem closed_poisoned : (poisonable true).Closed := by
  intro mode
  cases mode with
  | read => exact ⟨.poisonedForReading, rfl⟩
  | write => exact ⟨.poisonedForWriting, rfl⟩

/-- A writer alone holds the lock, and a reader is one more. -/
theorem acquire_ok (hcounts : lock.CountsHolders) (h : lock.acquire mode = .ok lock') :
    mode = .write ∧ lock' = .exclusive ∨ mode = .read ∧ ∃ n, lock = .shared n ∧ lock' = .shared (n + 1) := by
  cases lock with
  | shared n =>
    cases mode with
    | read => cases h; exact Or.inr ⟨rfl, n, rfl, rfl⟩
    | write =>
      cases n with
      | zero => cases h; exact Or.inl ⟨rfl, rfl⟩
      | succ n => cases h
  | exclusive => cases mode <;> cases h
  | poisonable poisoned => exact absurd rfl (hcounts poisoned)

/-- **Whoever holds the lock keeps writers out.** -/
theorem keepsOut_of_acquire (hcounts : lock.CountsHolders) (h : lock.acquire mode = .ok lock') :
    lock'.KeepsOut := by
  rcases acquire_ok hcounts h with ⟨-, rfl⟩ | ⟨-, n, -, rfl⟩
  · exact closed_exclusive.keepsOut
  · exact keepsOut_shared n

/-- A lock that keeps writers out lets readers in at most, and they keep them out as well. -/
theorem KeepsOut.acquire (hout : lock.KeepsOut) (h : lock.acquire mode = .ok lock') : lock'.KeepsOut := by
  refine keepsOut_of_acquire (fun poisoned hlock => ?_) h
  obtain ⟨why, hwhy⟩ := hout
  subst hlock
  cases poisoned with
  | false => cases hwhy
  | true => cases mode <;> cases h

/-- A lock that keeps writers out cannot get worse. -/
theorem KeepsOut.poison (hout : lock.KeepsOut) : lock.poison = lock := by
  obtain ⟨why, hwhy⟩ := hout
  cases lock with
  | shared n => rfl
  | exclusive => rfl
  | poisonable poisoned =>
    cases poisoned with
    | false => cases hwhy
    | true => rfl

end Lock

/-! ## Steps that are refused the lock -/

namespace Step

/-- **What a step takes the lock for**, if it takes it. -/
def lockMode? : Step → Option LockMode
  | .assignPolicy _ _ _ | .unassignPolicy _ _ | .change _ => some .write
  | .policyInForce _ | .isCovered _ | .query _ => some .read
  | .withLock mode _ => some mode
  | .registry _ | .config | .log | .poison => none

/-- **How a step that is refused the lock is answered.** A policy that is not enabled is turned down for
that, before the lock is asked for. -/
def turnedDown (r : Registry) (why : Refusal) : Step → Answer
  | .assignPolicy _ name _ =>
    if r.enabledNamed? name = none then .traced (.error (.policyNotEnabled name r.enabledNames)) []
    else .traced (.error (.lockRefused why)) [.fail .write]
  | .unassignPolicy _ _ => .traced (.error (.lockRefused why)) [.fail .write]
  | .policyInForce _ | .isCovered _ => .traced (.error (.lockRefused why)) [.fail .read]
  | _ => .plain (.error (.lockRefused why))

end Step

namespace Session

theorem grant_of_refused (h : s.lock.acquire mode = .error why) (ask : Option AccessMode) (path : String) :
    s.grant mode ask path = (.error (.lockRefused why), [.fail mode]) := by
  unfold grant; rw [h]

/-- **A step that is refused the lock is turned down**, and changes nothing. -/
theorem step_of_refused (hx : x.lockMode? = some mode) (h : s.lock.acquire mode = .error why) :
    s.step x = (x.turnedDown s.registry why, s) := by
  cases x with
  | assignPolicy path name retry =>
    cases hx
    rw [Step.turnedDown]
    cases hp : s.registry.enabledNamed? name with
    | none =>
      have hrequire : s.registry.require name = .error (s.registry.notEnabled name) := by
        unfold Registry.require; rw [hp]
      exact traced_map (perform_assignPolicy_of_notEnabled hrequire)
    | some p =>
      have hrequire := Registry.require_eq_ok_iff.2 hp
      exact traced_map (perform_assignPolicy_of_refused hrequire (grant_of_refused h _ _))
  | unassignPolicy path retry =>
    cases hx; exact traced_map (perform_unassignPolicy_of_refused (grant_of_refused h _ _))
  | policyInForce path =>
    cases hx; exact traced_map (perform_policyInForce_of_refused (grant_of_refused h _ _))
  | isCovered path =>
    cases hx; exact traced_map (perform_isCovered_of_refused (grant_of_refused h _ _))
  | change c => cases hx; rw [step, plain, perform_locked_of_refused h]; rfl
  | query q => cases hx; rw [step, plain, perform_locked_of_refused h]; rfl
  | withLock mode steps => cases hx; rw [step, h]; rfl
  | registry op => cases hx
  | config => cases hx
  | log => cases hx
  | poison => cases hx

end Session

/-! ## Runs under a lock that keeps writers out -/

namespace Step

mutual

/-- **The operations on the registry that a step comes to** under a lock that keeps writers out. Where more
readers are refused, what they would have done is not done. -/
def operations (lock : Lock) : Step → List Registry.Op
  | .registry op => [op]
  | .withLock mode steps =>
    match lock.acquire mode with
    | .ok lock => operationsIn lock steps
    | .error _ => []
  | _ => []

/-- The operations on the registry that some steps come to. -/
def operationsIn (lock : Lock) : List Step → List Registry.Op
  | [] => []
  | first :: rest => first.operations lock ++ operationsIn lock rest

end

end Step

theorem Registry.run_append (r : Registry) (ops later : List Registry.Op) :
    (r.run (ops ++ later)).2 = ((r.run ops).2.run later).2 := by
  induction ops generalizing r with
  | nil => rfl
  | cons op ops ih => exact ih (r.step op).2

namespace Session

/-- The session that operations on the registry lead to. -/
theorem run_registry (s : Session) (ops : List Registry.Op) :
    (s.run (ops.map .registry)).2 = { s with registry := (s.registry.run ops).2 } := by
  induction ops generalizing s with
  | nil => rfl
  | cons op ops ih => exact ih _

/-- A step that asks a question leaves the session as it was. -/
theorem step_of_reading (hx : x.lockMode? = some .read) (hsingle : x.IsSingle) : (s.step x).2 = s := by
  cases x with
  | policyInForce path => simp only [step, traced, perform_map, policyInForce_session]
  | isCovered path => simp only [step, traced, perform_map, isCovered_session]
  | query q => simp only [step, plain, query_session]
  | withLock mode steps => exact hsingle.elim
  | _ => cases hx

mutual

/-- **Where writers are kept out, a step comes to its operations on the registry.** -/
theorem step_of_keepsOut (s : Session) (hout : s.lock.KeepsOut) : ∀ x : Step,
    (s.step x).2 = { s with registry := (s.registry.run (x.operations s.lock)).2 }
  | .withLock mode steps => by
    simp only [step, Step.operations]
    cases hl : s.lock.acquire mode with
    | error why => rfl
    | ok lock =>
      -- the steps are done under a lock that keeps writers out as well, and then it is given back
      have hrun := run_of_keepsOut { s with lock } (hout.acquire hl) steps
      have hback := Lock.release_of_acquire hl
      simp only [hrun, hback]
  | .assignPolicy _ _ _ | .unassignPolicy _ _ | .change _ => by
    obtain ⟨why, hwhy⟩ := hout
    rw [step_of_refused rfl hwhy]
    rfl
  | .policyInForce _ | .isCovered _ | .query _ => step_of_reading rfl trivial
  | .registry _ | .config | .log => rfl
  | .poison => by
    rw [step, hout.poison]
    rfl

/-- **Where writers are kept out, a run comes to its operations on the registry.** -/
theorem run_of_keepsOut (s : Session) (hout : s.lock.KeepsOut) : ∀ steps : List Step,
    (s.run steps).2 = { s with registry := (s.registry.run (Step.operationsIn s.lock steps)).2 }
  | [] => rfl
  | first :: rest => by
    have hfirst := step_of_keepsOut s hout first
    have hout' : (s.step first).2.lock.KeepsOut := by rw [hfirst]; exact hout
    have hrest := run_of_keepsOut (s.step first).2 hout' rest
    simp only [run, Step.operationsIn, Registry.run_append]
    rw [hrest, hfirst]

end

end Session

/-! ## Readers among themselves -/

namespace Step

mutual

theorem operations_shared (n n' : Nat) : ∀ x : Step,
    x.operations (.shared (n + 1)) = x.operations (.shared (n' + 1))
  | .withLock .read steps => operationsIn_shared (n + 1) (n' + 1) steps
  | .withLock .write _ => rfl
  | .assignPolicy _ _ _ | .unassignPolicy _ _ | .policyInForce _ | .isCovered _ | .registry _ | .config
  | .log | .change _ | .query _ | .poison => rfl

theorem operationsIn_shared (n n' : Nat) : ∀ steps : List Step,
    operationsIn (.shared (n + 1)) steps = operationsIn (.shared (n' + 1)) steps
  | [] => rfl
  | first :: rest => by
    rw [operationsIn, operationsIn, operations_shared n n' first, operationsIn_shared n n' rest]

end

end Step

namespace Session

/-- The same session with a number of readers in it. -/
def withReaders (s : Session) (n : Nat) : Session := { s with lock := .shared n }

theorem grant_withReaders (s : Session) (n n' : Nat) (ask : Option AccessMode) (path : String) :
    (s.withReaders n).grant .read ask path = (s.withReaders n').grant .read ask path := by
  cases ask <;> rfl

/-- A question is answered alike, however many readers there are. -/
theorem answer_of_reading (s : Session) (n n' : Nat) (hx : x.lockMode? = some .read) (hsingle : x.IsSingle) :
    ((s.withReaders n).step x).1 = ((s.withReaders n').step x).1 := by
  cases x with
  | policyInForce path =>
    simp only [step, traced, perform_map, perform_policyInForce, s.grant_withReaders n n']
    rfl
  | isCovered path =>
    simp only [step, traced, perform_map, perform_isCovered, s.grant_withReaders n n']
    rfl
  | query q =>
    simp only [step, plain, perform_query]
    rfl
  | withLock mode steps => exact hsingle.elim
  | _ => cases hx

mutual

/-- **Readers do not see each other**: as long as there is one, their number does not matter to an answer. -/
theorem answer_withReaders (s : Session) (n n' : Nat) : ∀ x : Step,
    ((s.withReaders (n + 1)).step x).1 = ((s.withReaders (n' + 1)).step x).1
  | .withLock .read steps => congrArg Answer.nested (answers_withReaders s (n + 1) (n' + 1) steps)
  | .withLock .write _ => rfl
  | .assignPolicy _ _ _ | .unassignPolicy _ _ | .change _ => by
    have hheld : ∀ k, (s.withReaders (k + 1)).lock.acquire .write = .error .held := fun k => rfl
    rw [step_of_refused rfl (hheld n), step_of_refused rfl (hheld n')]
    rfl
  | .policyInForce _ | .isCovered _ | .query _ => s.answer_of_reading (n + 1) (n' + 1) rfl trivial
  | .registry _ | .config | .log | .poison => rfl

/-- The same of the answers to a run. -/
theorem answers_withReaders (s : Session) (n n' : Nat) : ∀ steps : List Step,
    ((s.withReaders (n + 1)).run steps).1 = ((s.withReaders (n' + 1)).run steps).1
  | [] => rfl
  | first :: rest => by
    -- the first step leaves the same session in both, but for the readers
    have hleft : ∀ k, ((s.withReaders (k + 1)).step first).2 =
        withReaders { s with registry := (s.registry.run (first.operations (.shared (n + 1)))).2 } (k + 1) := by
      intro k
      rw [step_of_keepsOut _ (Lock.keepsOut_shared k), Step.operations_shared n k]
      rfl
    simp only [run, hleft, answer_withReaders s n n' first]
    rw [answers_withReaders _ n n' rest]

end

/-- **A step that only reads is answered alike**, whether there are readers besides or not. -/
theorem answer_of_readers (s : Session) (n n' : Nat) (hx : x.lockMode? = some .read) :
    ((s.withReaders n).step x).1 = ((s.withReaders n').step x).1 := by
  cases x with
  | withLock mode steps =>
    cases hx
    exact congrArg Answer.nested (s.answers_withReaders n n' steps)
  | policyInForce path => exact s.answer_of_reading n n' rfl trivial
  | isCovered path => exact s.answer_of_reading n n' rfl trivial
  | query q => exact s.answer_of_reading n n' rfl trivial
  | _ => cases hx

/-! ## The steps that a run takes -/

/-- **A run takes a step**, itself or inside a step that holds the lock, in a session. -/
inductive Takes : Session → List Step → Session → Step → Prop
  | now {s : Session} {x : Step} {rest : List Step} : Takes s (x :: rest) s x
  | later {s s' : Session} {first x : Step} {rest : List Step} (h : Takes (s.step first).2 rest s' x) :
      Takes s (first :: rest) s' x
  | inside {s s' : Session} {x : Step} {mode : LockMode} {lock : Lock} {steps rest : List Step}
      (hl : s.lock.acquire mode = .ok lock) (h : Takes { s with lock } steps s' x) :
      Takes s (.withLock mode steps :: rest) s' x

/-- The answers to a run are those of the steps that it takes itself. -/
theorem answer_of_run (s : Session) {i : Nat} (hi : steps[i]? = some x) :
    ∃ s', s.Takes steps s' x ∧ (s.run steps).1[i]? = some (s'.step x).1 := by
  induction steps generalizing s i with
  | nil => cases hi
  | cons first rest ih =>
    cases i with
    | zero => cases hi; exact ⟨s, .now, rfl⟩
    | succ i =>
      obtain ⟨s', htakes, hanswer⟩ := ih (s.step first).2 hi
      exact ⟨s', .later htakes, hanswer⟩

/-- **What is true of the lock at the start stays true** of all sessions in which a run takes a step, and so
do the tree and the log, if it says that writers are kept out, also while more readers have the lock. -/
theorem Takes.kept {P : Lock → Prop} (hout : ∀ lock, P lock → lock.KeepsOut)
    (hgrant : ∀ lock mode lock', P lock → lock.acquire mode = .ok lock' → P lock')
    (h : s.Takes steps s' x) (hs : P s.lock) : P s'.lock ∧ s'.tree = s.tree ∧ s'.log = s.log := by
  induction h with
  | now => exact ⟨hs, rfl, rfl⟩
  | @later s s' first x rest h ih =>
    have hfirst := step_of_keepsOut s (hout _ hs) first
    rw [hfirst] at ih
    exact ih hs
  | inside hl h ih => exact ih (hgrant _ _ _ hs hl)

/-- **A step that asks for the lock where it is refused is turned down**, and changes nothing. -/
def TurnsDown (s : Session) (x : Step) (mode : LockMode) : Prop :=
  ∃ why, s.lock.acquire mode = .error why ∧ s.step x = (x.turnedDown s.registry why, s)

/-- Under a lock that nobody can take, all steps that ask for it are turned down. -/
theorem Takes.of_closed (h : s.Takes steps s' x) (hclosed : s.lock.Closed) :
    s'.lock = s.lock ∧ s'.tree = s.tree ∧ s'.log = s.log ∧
      ∀ mode, x.lockMode? = some mode → s'.TurnsDown x mode := by
  have hout : ∀ lock, lock = s.lock → lock.KeepsOut := by
    rintro _ rfl; exact hclosed.keepsOut
  have hgrant : ∀ (lock : Lock) (mode : LockMode) (lock' : Lock), lock = s.lock →
      lock.acquire mode = .ok lock' → lock' = s.lock := by
    rintro _ mode lock' rfl hl
    obtain ⟨why, hwhy⟩ := hclosed mode
    rw [hwhy] at hl; cases hl
  obtain ⟨hlock, htree, hlog⟩ := h.kept hout hgrant rfl
  refine ⟨hlock, htree, hlog, fun mode hx => ?_⟩
  obtain ⟨why, hwhy⟩ := hclosed mode
  rw [← hlock] at hwhy
  exact ⟨why, hwhy, step_of_refused hx hwhy⟩

/-- Under readers, steps that write are turned down, and steps that read are answered as without them. -/
theorem Takes.of_readers {n : Nat} (h : s.Takes steps s' x) (hs : s.lock = .shared (n + 1)) :
    ∃ n', s'.lock = .shared (n' + 1) ∧ s'.tree = s.tree ∧ s'.log = s.log ∧
      (x.lockMode? = some .write → s'.TurnsDown x .write) ∧
      (x.lockMode? = some .read → ∀ k, (s'.step x).1 = ((s'.withReaders k).step x).1) := by
  have hout : ∀ lock : Lock, (∃ n, lock = .shared (n + 1)) → lock.KeepsOut := by
    rintro _ ⟨n, rfl⟩; exact Lock.keepsOut_shared n
  have hgrant : ∀ (lock : Lock) (mode : LockMode) (lock' : Lock), (∃ n, lock = .shared (n + 1)) →
      lock.acquire mode = .ok lock' → ∃ n, lock' = .shared (n + 1) := by
    rintro _ mode lock' ⟨n, rfl⟩ hl
    cases mode with
    | read => cases hl; exact ⟨n + 1, rfl⟩
    | write => cases hl
  obtain ⟨⟨n', hlock⟩, htree, hlog⟩ := h.kept hout hgrant ⟨n, hs⟩
  have hwrite : s'.lock.acquire .write = .error .held := by rw [hlock]; rfl
  have hself : s'.withReaders (n' + 1) = s' := by unfold withReaders; rw [← hlock]
  refine ⟨n', hlock, htree, hlog, fun hx => ⟨.held, hwrite, step_of_refused hx hwrite⟩, fun hx k => ?_⟩
  rw [← s'.answer_of_readers (n' + 1) k hx, hself]

/-! ## Nothing changes -/

/-- **Nothing changes under a held or a poisoned lock.** A step that holds a lock of the kind that counts its
holders, with whatever steps inside, leads to where the operations on the registry among them lead without
any lock: tree, log and lock are as they were. The steps are taken one by one, in sessions with the same
tree and log. While a writer holds the lock, all that ask for it are turned down; while readers hold it,
those that write are turned down, and those that read are answered as with any other number of readers, or
none. Once a lock of the other kind is poisoned, the tree and the log stay for good, and all steps that ask
for the lock are turned down. -/
theorem nothing_changes_while_held (s : Session) :
    (∀ (mode : LockMode) (steps : List Step) (lock : Lock), s.lock.CountsHolders →
      s.lock.acquire mode = .ok lock →
      (s.step (.withLock mode steps)).2 = (s.run ((Step.operationsIn lock steps).map .registry)).2 ∧
      (s.step (.withLock mode steps)).2.tree = s.tree ∧ (s.step (.withLock mode steps)).2.log = s.log ∧
      (s.step (.withLock mode steps)).2.lock = s.lock ∧
      (∃ answers : List Answer, (s.step (.withLock mode steps)).1 = .nested answers ∧
        ∀ (i : Nat) (x : Step), steps[i]? = some x →
          ∃ s', Takes { s with lock } steps s' x ∧ answers[i]? = some (s'.step x).1) ∧
      ∀ s' x, Takes { s with lock } steps s' x → s'.tree = s.tree ∧ s'.log = s.log ∧
        (mode = .write → s'.lock = .exclusive ∧ ∀ m, x.lockMode? = some m → s'.TurnsDown x m) ∧
        (mode = .read → ∃ n, s'.lock = .shared (n + 1) ∧
          (x.lockMode? = some .write → s'.TurnsDown x .write) ∧
          (x.lockMode? = some .read → ∀ k, (s'.step x).1 = ((s'.withReaders k).step x).1))) ∧
    ∀ poisoned, s.lock = .poisonable poisoned → ∀ steps,
      ((s.step .poison).2.run steps).2.tree = s.tree ∧ ((s.step .poison).2.run steps).2.log = s.log ∧
      ((s.step .poison).2.run steps).2.lock = .poisonable true ∧
      ∀ s' x, Takes (s.step .poison).2 steps s' x → s'.tree = s.tree ∧ s'.log = s.log ∧
        ∀ m, x.lockMode? = some m → s'.TurnsDown x m := by
  refine ⟨fun mode steps lock hcounts hl => ?_, fun poisoned hlock steps => ?_⟩
  · have hheld := Lock.keepsOut_of_acquire hcounts hl
    have hstep : s.step (.withLock mode steps) = (.nested (({ s with lock } : Session).run steps).1,
        { s with registry := (s.registry.run (Step.operationsIn lock steps)).2 }) := by
      simp only [step, hl, run_of_keepsOut { s with lock } hheld steps, Lock.release_of_acquire hl]
    rw [hstep, run_registry]
    refine ⟨rfl, rfl, rfl, rfl, ⟨_, rfl, fun i x hi => answer_of_run _ hi⟩, fun s' x htakes => ?_⟩
    rcases Lock.acquire_ok hcounts hl with ⟨rfl, rfl⟩ | ⟨rfl, n, -, rfl⟩
    · obtain ⟨hlock, htree, hlog, hdown⟩ := htakes.of_closed Lock.closed_exclusive
      exact ⟨htree, hlog, fun _ => ⟨hlock, hdown⟩, nofun⟩
    · obtain ⟨n', hlock, htree, hlog, hwrite, hread⟩ := htakes.of_readers rfl
      exact ⟨htree, hlog, nofun, fun _ => ⟨n', hlock, hwrite, hread⟩⟩
  · have hpoison : (s.step .poison).2 = { s with lock := .poisonable true } := by
      rw [step, hlock]; rfl
    rw [hpoison, run_of_keepsOut _ Lock.closed_poisoned.keepsOut]
    refine ⟨rfl, rfl, rfl, fun s' x htakes => ?_⟩
    obtain ⟨-, htree, hlog, hdown⟩ := htakes.of_closed Lock.closed_poisoned
    exact ⟨htree, hlog, hdown⟩

/-- Under a reader a policy is disabled, so to assign it is turned down for that, and what is in force is
seen by one more reader; after poison nothing works. -/
theorem nothing_changes_while_held_nested :
    let assign : Step := .assignPolicy "/" "RS-6-3-1024k" none
    let disable : Registry.Op := .disable "RS-6-3-1024k"
    let steps : List Step := [assign, .registry disable, .withLock .read [assign, .isCovered "/x"]]
    let s : Session := { initial with lock := .poisonable false }
    initial.lock.CountsHolders ∧ initial.lock.acquire .read = .ok (.shared 1) ∧
      (initial.step (.withLock .read steps)).2 = (initial.run [.registry disable]).2 ∧
      (∀ s' x, Takes { initial with lock := .shared 1 } steps s' x → s'.tree = .empty) ∧
      (∃ s', Takes { initial with lock := .shared 1 } steps s' assign ∧
        s'.step assign = (.traced (.error (.policyNotEnabled "RS-6-3-1024k" [])) [], s')) ∧
      s.lock = .poisonable false ∧ ((s.step .poison).2.run steps).2.tree = .empty ∧
      (s.step .poison).2.TurnsDown assign .write := by
  intro assign disable steps s
  have hcounts : initial.lock.CountsHolders := nofun
  obtain ⟨hheld, -⟩ := nothing_changes_while_held initial
  obtain ⟨-, hpoisoned⟩ := nothing_changes_while_held s
  obtain ⟨hstep, -, -, -, -, htaken⟩ := hheld .read steps (.shared 1) hcounts rfl
  obtain ⟨htree, -, -, hdown⟩ := hpoisoned false rfl steps
  -- the inner one of the two steps that assign
  have htakes : Takes { initial with lock := .shared 1 } steps
      { initial with lock := .shared 2, registry := .system } assign :=
    .later (.later (.inside rfl .now))
  obtain ⟨n, -, hwrite, -⟩ := (htaken _ _ htakes).2.2.2 rfl
  obtain ⟨why, -, hanswer⟩ := hwrite rfl
  refine ⟨hcounts, rfl, hstep, fun s' x h => (htaken s' x h).1, ⟨_, htakes, ?_⟩, rfl, htree,
    (hdown _ _ .now).2.2 .write rfl⟩
  rw [hanswer]
  rfl

end Session

end PolicyTree
