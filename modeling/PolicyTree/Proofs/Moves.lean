import PolicyTree.Proofs.Calls
import PolicyTree.Proofs.Lineage
import PolicyTree.Proofs.Registry

/-!
# Runs as sequences of moves

A run of steps is broken up into moves, each of which changes one thing, so that a property of all runs
has one case for each kind of move.

* `Session.Move`: an elementary move of a session. `Session.Effect`: what a step that holds no others can
  do, with the step (`effect_step`). `moves_step`, `moves_run`: **every step and every run comes to moves**,
  which touch only the attributes that the changes in it name, but for the two calls.
* `Moves.tree_extends`: all nodes stay through moves.
* `Session.Reachable`: the sessions that steps lead to. Their trees and registries are well formed
  (`Reachable.wellFormed`).
-/

namespace PolicyTree

open Relation (ReflTransGen)

variable {α β : Type} {s s' : Session} {touchable : String → Prop}

/-- The name of the attribute that a change writes or takes away. -/
def TreeChange.writes? : TreeChange → Option String
  | .putAttribute _ a _ => some a.name
  | .removeAttribute _ name => some name
  | .assign _ _ => some PolicyName.key
  | .unassign _ => some PolicyName.key
  | _ => none

namespace Step

/-- A step that holds no others. -/
def IsSingle : Step → Prop
  | .withLock _ _ => False
  | _ => True

mutual

/-- The changes of the tree that a step asks for, those under a held lock too. -/
def changes : Step → List TreeChange
  | .change c => [c]
  | .withLock _ steps => changesIn steps
  | _ => []

/-- The changes of the tree that some steps ask for. -/
def changesIn : List Step → List TreeChange
  | [] => []
  | first :: rest => first.changes ++ changesIn rest

end

end Step

namespace Session

/-- **An elementary move of a session.** Beside the two calls, only touchable attributes change. -/
inductive Move (touchable : String → Prop) (s : Session) : Session → Prop
  | lock (lock : Lock) : Move touchable s { s with lock }
  | registry (op : Registry.Op) : Move touchable s { s with registry := (s.registry.step op).2 }
  | alter {t : Tree} (h : s.tree.Alters touchable t) : Move touchable s { s with tree := t }
  | assign {path name : String} {p : Policy} {c : Chain} {d : NodeId} {n : Node} {retry : Option RetryToken}
      (hp : s.registry.require name = .ok p) (hc : s.tree.chain path = .ok c)
      (ht : s.tree.Targets c d n) (hd : n.isDirectory) :
      Move touchable s { s with
        tree := s.tree.assigned d n p
        log := s.log.record ⟨.set, c.path, [PolicyName.toAttribute p.name], retry⟩ }
  | unassign {path : String} {c : Chain} {d : NodeId} {n : Node} {a : Attribute} {retry : Option RetryToken}
      (hc : s.tree.chain path = .ok c) (ht : s.tree.Targets c d n) (hd : n.isDirectory)
      (ha : n.attributes.find? PolicyName.key = some a) :
      Move touchable s { s with
        tree := s.tree.unassigned d n
        log := s.log.record ⟨.removed, c.path, [a], retry⟩ }

/-- **What a step that holds no others can do**, and which step it takes. Beside the two calls, only touchable
attributes change. -/
inductive Effect (touchable : String → Prop) (s : Session) : Step → Session → Prop
  | keep (x : Step) : Effect touchable s x s
  | poison : Effect touchable s .poison { s with lock := s.lock.poison }
  | registry (op : Registry.Op) :
      Effect touchable s (.registry op) { s with registry := (s.registry.step op).2 }
  | change {c : TreeChange} {t : Tree} (h : s.tree.Altered touchable t) :
      Effect touchable s (.change c) { s with tree := t }
  | assign {path name : String} {p : Policy} {c : Chain} {d : NodeId} {n : Node} {retry : Option RetryToken}
      (hp : s.registry.require name = .ok p) (hc : s.tree.chain path = .ok c)
      (ht : s.tree.Targets c d n) (hd : n.isDirectory)
      (hanswer : ∃ events, (s.step (.assignPolicy path name retry)).1 =
        .traced (.ok (.assignOutcome (s.assigns c d n p))) events) :
      Effect touchable s (.assignPolicy path name retry) { s with
        tree := s.tree.assigned d n p
        log := s.log.record ⟨.set, c.path, [PolicyName.toAttribute p.name], retry⟩ }
  | unassign {path : String} {c : Chain} {d : NodeId} {n : Node} {a : Attribute} {retry : Option RetryToken}
      (hc : s.tree.chain path = .ok c) (ht : s.tree.Targets c d n) (hd : n.isDirectory)
      (ha : n.attributes.find? PolicyName.key = some a) :
      Effect touchable s (.unassignPolicy path retry) { s with
        tree := s.tree.unassigned d n
        log := s.log.record ⟨.removed, c.path, [a], retry⟩ }

/-- Any number of moves. -/
abbrev Moves (touchable : String → Prop) : Session → Session → Prop := ReflTransGen (Move touchable)

/-! ## Changes of the tree -/

theorem session_perform (s : Session) (call : Call α) :
    (s.perform call).session = (stateAfter call ⟨s, []⟩).session := by
  unfold perform stateAfter
  rw [show call ⟨s, []⟩ = call.run ⟨s, []⟩ from rfl]
  cases call.run ⟨s, []⟩ <;> rfl

theorem perform_map (s : Session) (f : α → β) (call : Call α) :
    s.perform (f <$> call) =
      ⟨(s.perform call).result.map f, (s.perform call).events, (s.perform call).session⟩ := by
  unfold perform
  rw [show (f <$> call) ⟨s, []⟩ = (f <$> call).run ⟨s, []⟩ from rfl, run_map,
    show call ⟨s, []⟩ = call.run ⟨s, []⟩ from rfl]
  cases call.run ⟨s, []⟩ <;> rfl

theorem traced_map {f : α → Value} {call : Call α} {r : Except Error α} {events : List Event}
    (h : s.perform call = ⟨r, events, s'⟩) : s.traced (f <$> call) = (.traced (r.map f) events, s') := by
  rw [traced, perform_map, h]

theorem session_perform_locked (s : Session) (mode : LockMode) (action : Call α) :
    (s.perform (Call.locked mode action)).session = match s.lock.acquire mode with
      | .error _ => s
      | .ok lock =>
        let after := (stateAfter action ⟨{ s with lock }, [.acquire mode]⟩).session
        { after with lock := after.lock.release } := by
  rw [session_perform, stateAfter, Call.run_locked]
  cases s.lock.acquire mode with
  | error why => rfl
  | ok lock =>
    simp only [stateAfter, List.nil_append]
    cases action.run ⟨{ s with lock }, [.acquire mode]⟩ <;> rfl

theorem stateAfter_edit (action : Tree.Edit α) (f : α → β) (events : List Event) :
    (stateAfter (do return f (← Call.edit action)) ⟨s, events⟩).session =
      { s with tree := stateAfter action s.tree } := by
  unfold stateAfter
  simp only [EStateM.run_bind, Call.run_edit]
  cases action.run s.tree <;> rfl

/-- **A change comes to elementary changes of the tree**, and leaves the rest of the session alone. -/
theorem altered_perform (c : TreeChange) (hc : ∀ name, c.writes? = some name → touchable name)
    (s : Session) (events : List Event) :
    ∃ t, s.tree.Altered touchable t ∧ (stateAfter c.perform ⟨s, events⟩).session = { s with tree := t } := by
  cases c with
  -- four ways to make nodes, none of which brings children or attributes along
  | makeDirectory path =>
    exact ⟨_, Tree.altered_make path NodeKind.holdsNothing_emptyDirectory _, stateAfter_edit _ _ _⟩
  | makeDirectories path => exact ⟨_, Tree.altered_makeDirectories path _, stateAfter_edit _ _ _⟩
  | makeFile path policyId =>
    exact ⟨_, Tree.altered_make path (fun c h => NodeKind.noConfusion h) _, stateAfter_edit _ _ _⟩
  | makeLink path target =>
    exact ⟨_, Tree.altered_make path (fun c h => NodeKind.noConfusion h) _, stateAfter_edit _ _ _⟩
  -- the name written is the one that the change names
  | putAttribute id a flags =>
    exact ⟨_, Tree.altered_putAttribute id a flags (hc _ rfl) _, stateAfter_edit _ (fun _ => Value.done) _⟩
  | removeAttribute id name =>
    exact ⟨_, Tree.altered_removeAttribute id (hc _ rfl) _, stateAfter_edit _ _ _⟩
  | assign c choice =>
    cases choice with
    | named name =>
      cases hp : s.registry.require name with
      | error e =>
        -- a policy that is not enabled stops the change before it begins
        refine ⟨s.tree, .refl, ?_⟩
        unfold stateAfter TreeChange.perform
        simp only [EStateM.run_bind, Call.run_session, hp, run_ofExcept_error]
      | ok p =>
        refine ⟨_, Tree.altered_assign c p (hc _ rfl) _, ?_⟩
        rw [← stateAfter_edit (s := s) _ Value.assignment events]
        unfold stateAfter TreeChange.perform
        simp only [EStateM.run_bind, Call.run_session, hp, run_ofExcept_ok]
    | given p => exact ⟨_, Tree.altered_assign c p (hc _ rfl) _, stateAfter_edit _ _ _⟩
  | unassign c => exact ⟨_, Tree.altered_unassign c (hc _ rfl) _, stateAfter_edit _ _ _⟩

/-! ## Steps and runs -/

theorem moves_alter {t : Tree} (h : s.tree.Altered touchable t) :
    Moves touchable s { s with tree := t } := by
  induction h with
  | refl => exact .refl
  | tail _ hstep ih => exact ih.tail (.alter hstep)

/-- A change leaves all but the tree as it was. -/
theorem session_change (s : Session) (c : TreeChange) (hc : ∀ name, c.writes? = some name → touchable name) :
    ∃ t, s.tree.Altered touchable t ∧
      (s.perform (Call.locked .write c.perform)).session = { s with tree := t } := by
  rw [session_perform_locked]
  cases hl : s.lock.acquire .write with
  | error why => exact ⟨s.tree, .refl, rfl⟩
  | ok lock =>
    obtain ⟨t, ht, hs⟩ := altered_perform c hc { s with lock } [.acquire .write]
    exact ⟨t, ht, by simp only [hs, Lock.release_of_acquire hl]⟩

/-- **A question about the tree is answered**, if the lock can be taken, and leaves the session as it was. -/
theorem perform_query (s : Session) (q : TreeQuery) :
    s.perform (Call.locked .read do
      let s ← Call.session
      MonadExcept.ofExcept (q.answer s.tree s.registry)) = match s.lock.acquire .read with
        | .error why => ⟨.error (.lockRefused why), [.fail .read], s⟩
        | .ok _ => ⟨q.answer s.tree s.registry, [.acquire .read, .release .read], s⟩ := by
  cases hl : s.lock.acquire .read with
  | error why => exact perform_locked_of_refused hl _
  | ok lock =>
    have hback := Lock.release_of_acquire hl
    apply perform_of_answer
    rw [Call.run_locked, hl]
    simp only [EStateM.run_bind, Call.run_session]
    cases q.answer s.tree s.registry with
    | ok a => simp only [run_ofExcept_ok, hback]; rfl
    | error e => simp only [run_ofExcept_error, hback]; rfl

theorem query_session (s : Session) (q : TreeQuery) :
    (s.perform (Call.locked .read do
      let s ← Call.session
      MonadExcept.ofExcept (q.answer s.tree s.registry))).session = s := by
  rw [perform_query]
  cases s.lock.acquire .read <;> rfl

theorem effect_assignPolicy (s : Session) (path name : String) (retry : Option RetryToken) :
    Effect touchable s (.assignPolicy path name retry) (s.step (.assignPolicy path name retry)).2 := by
  rcases s.assignPolicy_cases path name retry with ⟨e, events, h, -⟩ | ⟨p, c, d, n, seen, hp, h, ht, hd⟩
  · rw [step, traced_map h]; exact .keep _
  · have hstep : s.step (.assignPolicy path name retry) = _ :=
      traced_map (perform_assignPolicy_of_directory hp h ht hd)
    rw [hstep]; exact .assign hp (grant_ok h).2.1 ht hd ⟨_, by rw [hstep]; rfl⟩

theorem effect_unassignPolicy (s : Session) (path : String) (retry : Option RetryToken) :
    Effect touchable s (.unassignPolicy path retry) (s.step (.unassignPolicy path retry)).2 := by
  rcases s.unassignPolicy_cases path retry with ⟨e, h⟩ | ⟨c, d, n, seen, h, ht, hd⟩
  · rw [step, traced_map h]; exact .keep _
  · rw [step, traced_map (perform_unassignPolicy_of_directory h ht hd)]
    cases ha : n.attributes.find? PolicyName.key with
    | none => exact .keep _
    | some a => exact .unassign (grant_ok h).2.1 ht hd ha

/-- **Every step that holds no others has one of the effects.** -/
theorem effect_step (s : Session) {x : Step} (hx : x.IsSingle)
    (hchanges : ∀ c ∈ x.changes, ∀ name, c.writes? = some name → touchable name) :
    Effect touchable s x (s.step x).2 := by
  cases x with
  | assignPolicy path name retry => exact s.effect_assignPolicy path name retry
  | unassignPolicy path retry => exact s.effect_unassignPolicy path retry
  | policyInForce path => simp only [step, traced, perform_map, policyInForce_session]; exact .keep _
  | isCovered path => simp only [step, traced, perform_map, isCovered_session]; exact .keep _
  | registry op => exact .registry op
  | config => exact .keep _
  | log => exact .keep _
  | change c =>
    obtain ⟨t, ht, h⟩ := s.session_change c (hchanges c (List.mem_singleton_self c))
    rw [step, plain, h]; exact .change ht
  | query q => simp only [step, plain, query_session]; exact .keep _
  | withLock mode steps => exact hx.elim
  | poison => exact .poison

theorem Effect.moves {x : Step} (h : Effect touchable s x s') : Moves touchable s s' := by
  cases h with
  | keep => exact .refl
  | poison => exact .single (.lock _)
  | registry op => exact .single (.registry op)
  | change h => exact moves_alter h
  | assign hp hc ht hd _ => exact .single (.assign hp hc ht hd)
  | unassign hc ht hd ha => exact .single (.unassign hc ht hd ha)

mutual

/-- **Every step comes to moves.** -/
theorem moves_step (s : Session) : ∀ x : Step,
    (∀ c ∈ x.changes, ∀ name, c.writes? = some name → touchable name) → Moves touchable s (s.step x).2
  | .withLock mode steps, hx => by
    simp only [step]
    cases hl : s.lock.acquire mode with
    | error why => exact .refl
    | ok lock =>
      -- the lock is taken, the steps are done, and the lock is given back
      exact (ReflTransGen.head (.lock lock) (moves_run { s with lock } steps hx)).tail (.lock _)
  | .assignPolicy _ _ _, hx | .unassignPolicy _ _, hx | .policyInForce _, hx | .isCovered _, hx
  | .registry _, hx | .config, hx | .log, hx | .change _, hx | .query _, hx | .poison, hx =>
    Effect.moves (s.effect_step trivial hx)

/-- **Every run comes to moves.** -/
theorem moves_run (s : Session) : ∀ steps : List Step,
    (∀ c ∈ Step.changesIn steps, ∀ name, c.writes? = some name → touchable name) →
      Moves touchable s (s.run steps).2
  | [], _ => .refl
  | first :: rest, h => by
    simp only [run]
    have hfirst := moves_step s first fun c hc => h c (List.mem_append_left _ hc)
    have hrest := moves_run (s.step first).2 rest fun c hc => h c (List.mem_append_right _ hc)
    exact hfirst.trans hrest

end

/-! ## What moves keep -/

/-- **A move keeps all nodes**, each with its name and its place; a file keeps its policy id. -/
theorem Move.tree_extends (h : Move touchable s s') : s.tree.Extends s'.tree := by
  cases h with
  | lock lock => exact Tree.Extends.refl s.tree
  | registry op => exact Tree.Extends.refl s.tree
  | alter h => exact Tree.extends_alters h
  | assign hp hc ht hd => exact s.tree.extends_setAttributes _ _
  | unassign hc ht hd ha => exact s.tree.extends_setAttributes _ _

theorem Moves.tree_extends (h : Moves touchable s s') : s.tree.Extends s'.tree := by
  induction h with
  | refl => exact Tree.Extends.refl s.tree
  | tail _ hmove ih => exact ih.trans hmove.tree_extends

/-! ## Reachable sessions -/

/-- **A session that steps lead to**, from an empty tree and whatever the lock, the checker and the log
are; also one whose lock is being held. -/
inductive Reachable : Session → Prop
  | start {config : Config} {lock : Lock} {checker : Checker} {log : AuditTrail} {s : Session}
      (h : Session.start config lock checker log = .ok s) : Reachable s
  | step {s : Session} (hs : Reachable s) (x : Step) : Reachable (s.step x).2
  | hold {s : Session} {mode : LockMode} {lock : Lock} (hs : Reachable s)
      (hl : s.lock.acquire mode = .ok lock) : Reachable { s with lock }

theorem Reachable.run (steps : List Step) (hs : s.Reachable) : (s.run steps).2.Reachable := by
  induction steps generalizing s with
  | nil => exact hs
  | cons first rest ih => exact ih (hs.step first)

/-- The tree and the registry are well formed. -/
structure WellFormed (s : Session) : Prop where
  tree : s.tree.WellFormed
  registry : s.registry.WellFormed

theorem start_ok {config : Config} {lock : Lock} {checker : Checker} {log : AuditTrail}
    (h : Session.start config lock checker log = .ok s) :
    s.registry.WellFormed ∧ s.tree = .empty ∧ s.log = log := by
  unfold Session.start at h
  cases hr : Registry.ofConfig config with
  | error e => rw [hr] at h; cases h
  | ok r => rw [hr] at h; cases h; exact ⟨.ofConfig hr, rfl, rfl⟩

/-- **A move keeps a session well formed.** -/
theorem WellFormed.move (hs : s.WellFormed) (h : Move touchable s s') : s'.WellFormed := by
  cases h with
  | lock lock => exact ⟨hs.tree, hs.registry⟩
  | registry op => exact ⟨hs.tree, hs.registry.step op⟩
  | alter h => exact ⟨hs.tree.alters h, hs.registry⟩
  | assign hp hc ht hd => exact ⟨hs.tree.setAttributes ((hs.tree.distinct ht.2).put _) _, hs.registry⟩
  | unassign hc ht hd ha => exact ⟨hs.tree.setAttributes ((hs.tree.distinct ht.2).erase _) _, hs.registry⟩

theorem WellFormed.moves (hs : s.WellFormed) (h : Moves touchable s s') : s'.WellFormed := by
  induction h with
  | refl => exact hs
  | tail _ hmove ih => exact ih.move hmove

/-- **Reachable sessions are well formed.** -/
theorem Reachable.wellFormed (hs : s.Reachable) : s.WellFormed := by
  induction hs with
  | start h =>
    obtain ⟨hr, ht, -⟩ := start_ok h
    exact ⟨ht ▸ Tree.WellFormed.empty, hr⟩
  | @step s _ x ih =>
    have hmoves : Moves (fun _ => True) s (s.step x).2 := moves_step s x fun _ _ _ _ => trivial
    exact ih.moves hmoves
  | hold _ _ ih => exact ⟨ih.tree, ih.registry⟩

theorem start_default (checker : Checker) :
    Session.start .default .free checker (.keeping []) = .ok { initial with checker } := by
  have hconfig : Config.default = ⟨["RS-6-3-1024k"], true⟩ := by decide
  unfold Session.start Registry.ofConfig
  rw [hconfig]
  rfl

theorem start_initial : Session.start .default .free .allowAll (.keeping []) = .ok initial :=
  start_default .allowAll

theorem reachable_initial : initial.Reachable := .start start_initial

end Session

end PolicyTree
