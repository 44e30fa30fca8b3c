import PolicyTree.Access
import PolicyTree.Audit
import PolicyTree.Lock
import PolicyTree.Registry

/-!
# Sessions

A session is a tree behind a lock, with the registry of policies, a permission checker and an audit
log. A call is an action on a session. What its collaborators see of it is a list of events.

* `Session.start`: a session over an empty tree.
* `Call`: an action that may fail; what it did before it failed stays.
* `Call.locked`: an action under the lock, which is given back however the action ends.
* `Session.perform`: what a call on a session comes to.
-/

namespace PolicyTree

open MonadExcept (ofExcept)

/-- A tree, and all that guards and serves it. -/
structure Session where
  config : Config
  registry : Registry
  lock : Lock
  tree : Tree
  checker : Checker
  log : AuditTrail

/-- **A session over an empty tree.** The configured policies must be known. -/
def Session.start (config : Config) (lock : Lock) (checker : Checker) (log : AuditTrail) :
    Except Error Session := do
  return { config, registry := ← Registry.ofConfig config, lock, tree := .empty, checker, log }

/-- What a collaborator sees of a call. -/
inductive Event where
  /-- The lock is taken. -/
  | acquire (mode : LockMode)
  /-- The lock is refused. -/
  | fail (mode : LockMode)
  | release (mode : LockMode)
  /-- The permission checker is asked. -/
  | check (mode : AccessMode) (path : String)
  /-- A record is handed to the audit log. -/
  | audit (path : String)
  deriving DecidableEq, Repr

/-- An event as a line. -/
def Event.render : Event → String
  | .acquire mode => "acquire " ++ mode.name
  | .fail mode => "fail " ++ mode.name
  | .release mode => "release " ++ mode.name
  | .check mode path => "check " ++ mode.bits.toNat.repr ++ " " ++ path
  | .audit path => "audit " ++ path

/-- A session in the course of a call, and the events so far. -/
structure Course where
  session : Session
  events : List Event

/-- An action on a session. -/
abbrev Call := EStateM Error Course

/-- What a call comes to. -/
structure Reply (α : Type) where
  result : Except Error α
  events : List Event
  session : Session

namespace Call

variable {α : Type}

/-- The session as it is. -/
def session : Call Session := return (← get).session

/-- Lets the collaborators see an event. -/
def emit (e : Event) : Call Unit :=
  modify fun course => { course with events := course.events ++ [e] }

/-- Changes the session. -/
def change (f : Session → Session) : Call Unit :=
  modify fun course => { course with session := f course.session }

/-- An action on the tree alone. -/
def edit (action : Tree.Edit α) : Call α := do
  match action (← session).tree with
  | .ok a tree => do
    change ({ · with tree })
    return a
  | .error e tree => do
    change ({ · with tree })
    throw e

/-- Takes the lock. -/
def acquire (mode : LockMode) : Call Unit := do
  match (← session).lock.acquire mode with
  | .ok lock => do
    change ({ · with lock })
    emit (.acquire mode)
  | .error why => do
    emit (.fail mode)
    throw (.lockRefused why)

/-- Gives the lock back. -/
def release (mode : LockMode) : Call Unit := do
  change fun s => { s with lock := s.lock.release }
  emit (.release mode)

/-- **An action under the lock.** -/
def locked (mode : LockMode) (action : Call α) : Call α := do
  acquire mode
  try action finally release mode

/-- The nodes along a path. -/
def resolve (path : String) : Call Chain := do ofExcept ((← session).tree.chain path)

/-- Asks the permission checker, if access is checked at all. -/
def check (c : Chain) (mode : AccessMode) : Call Unit := do
  let s ← session
  if s.config.permissions then
    emit (.check mode c.path)
    ofExcept (s.checker s.tree c mode)

/-- Hands a record to the audit log. -/
def record (r : AuditRecord) : Call Unit := do
  emit (.audit r.path)
  change fun s => { s with log := s.log.record r }

end Call

/-- **What a call on a session comes to.** -/
def Session.perform {α : Type} (s : Session) (call : Call α) : Reply α :=
  match call ⟨s, []⟩ with
  | .ok a course => ⟨.ok a, course.events, course.session⟩
  | .error e course => ⟨.error e, course.events, course.session⟩

end PolicyTree
