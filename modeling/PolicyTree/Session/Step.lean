import PolicyTree.Session.Policy
import PolicyTree.Tree.Make

/-!
# Steps

All that can be done to a session, as data, so that a whole course of events is a list.

* `Step`: the four calls, operations on the registry, changes and questions about the tree, and
  holding or breaking the lock.
* `Session.step`, `Session.run`: one step and a sequence of steps, with the answers.
-/

namespace PolicyTree

open MonadExcept (ofExcept)

/-- The policy that a step writes. -/
inductive PolicyChoice where
  /-- The enabled policy of a name. -/
  | named (name : String)
  | given (p : Policy)
  deriving DecidableEq, Repr

/-- A change of the tree. -/
inductive TreeChange where
  | makeDirectory (path : String)
  | makeDirectories (path : String)
  | makeFile (path : String) (policyId : Int8)
  | makeLink (path target : String)
  | putAttribute (id : NodeId) (a : Attribute) (flags : SetFlags)
  | removeAttribute (id : NodeId) (name : String)
  | assign (c : Chain) (choice : PolicyChoice)
  | unassign (c : Chain)
  deriving DecidableEq, Repr

/-- A question about the tree. -/
inductive TreeQuery where
  | lookup (path : String)
  | chain (path : String)
  | node (id : NodeId)
  | child (id : NodeId) (name : String)
  | attributeCount (id : NodeId) (name : String)
  | attribute (id : NodeId) (name : String)
  | ownPolicy (id : NodeId)
  | status (path : String)
  | inForce (c : Chain)
  | isCovered (c : Chain)
  | statusOf (c : Chain)
  | tree
  deriving DecidableEq, Repr

/-- Something done to a session. -/
inductive Step where
  | assignPolicy (path name : String) (retry : Option RetryToken)
  | unassignPolicy (path : String) (retry : Option RetryToken)
  | policyInForce (path : String)
  | isCovered (path : String)
  | registry (op : Registry.Op)
  | config
  | log
  | change (c : TreeChange)
  | query (q : TreeQuery)
  /-- Holds the lock while other steps are done. -/
  | withLock (mode : LockMode) (steps : List Step)
  | poison

/-- The answer to a step that succeeds. -/
inductive Value where
  | done
  | flag (b : Bool)
  | id (id : NodeId)
  | foundId (id : Option NodeId)
  | count (n : Option Nat)
  | foundAttribute (a : Option Attribute)
  | removed (attributes : Option (List Attribute))
  | foundPolicy (p : Option Policy)
  | registry (answer : Registry.Answer)
  | config (c : Config)
  | log (records : Option (List AuditRecord))
  | chain (c : Chain)
  | foundNode (n : Option Node)
  | tree (t : Tree)
  | assignment (a : Assignment)
  | status (s : Status)
  | assignOutcome (o : AssignOutcome)
  | unassignOutcome (o : UnassignOutcome)
  deriving DecidableEq, Repr

/-- The answer to a step. -/
inductive Answer where
  | plain (result : Except Error Value)
  /-- The answer to one of the four calls, with what the collaborators saw of it. -/
  | traced (result : Except Error Value) (events : List Event)
  /-- The answers to the steps done while the lock was held. -/
  | nested (answers : List Answer)

namespace TreeChange

/-- Makes a change, while the lock is held. -/
def perform : TreeChange → Call Value
  | .makeDirectory path => return .id (← Call.edit (Tree.makeDirectory path))
  | .makeDirectories path => return .id (← Call.edit (Tree.makeDirectories path))
  | .makeFile path policyId => return .id (← Call.edit (Tree.makeFile path policyId))
  | .makeLink path target => return .id (← Call.edit (Tree.makeLink path target))
  | .putAttribute id a flags => do
    Call.edit (Tree.putAttribute id a flags)
    return .done
  | .removeAttribute id name =>
    return .foundAttribute (← Call.edit (Tree.removeAttribute id name))
  | .assign c (.named name) => do
    let p ← ofExcept ((← Call.session).registry.require name)
    return .assignment (← Call.edit (Tree.assign c p))
  | .assign c (.given p) => return .assignment (← Call.edit (Tree.assign c p))
  | .unassign c => return .removed (← Call.edit (Tree.unassign c))

end TreeChange

namespace TreeQuery

/-- Answers a question. -/
def answer (t : Tree) (r : Registry) : TreeQuery → Except Error Value
  | .lookup path => return .foundId (← t.lookup path)
  | .chain path => return .chain (← t.chain path)
  | .node id => return .foundNode (t.node? id)
  | .child id name => return .foundId (t.child? id name)
  | .attributeCount id name => return .count (t.attributeCount? id name)
  | .attribute id name => return .foundAttribute (t.attribute? id name)
  | .ownPolicy id => return .foundAttribute (t.ownPolicy? id)
  | .status path => return .status (← t.status r (← t.chain path))
  | .inForce c => return .foundPolicy (← t.inForce r c)
  | .isCovered c => return .flag (← t.isCovered r c)
  | .statusOf c => return .status (← t.status r c)
  | .tree => return .tree t

end TreeQuery

namespace Session

/-- Performs a call and answers without its events. -/
def plain (s : Session) (call : Call Value) : Answer × Session :=
  let reply := s.perform call
  (.plain reply.result, reply.session)

/-- Performs a call and answers with its events. -/
def traced (s : Session) (call : Call Value) : Answer × Session :=
  let reply := s.perform call
  (.traced reply.result reply.events, reply.session)

mutual

/-- **One step**: its answer, and the session after it. -/
def step (s : Session) : Step → Answer × Session
  | .assignPolicy path name retry => s.traced (.assignOutcome <$> Call.assignPolicy path name retry)
  | .unassignPolicy path retry => s.traced (.unassignOutcome <$> Call.unassignPolicy path retry)
  | .policyInForce path => s.traced (.foundPolicy <$> Call.policyInForce path)
  | .isCovered path => s.traced (.flag <$> Call.isCovered path)
  | .registry op =>
    let (answer, registry) := s.registry.step op
    (.plain (answer.map .registry), { s with registry })
  | .config => (.plain (.ok (.config s.config)), s)
  | .log => (.plain (.ok (.log s.log.records?)), s)
  | .change c => s.plain (Call.locked .write c.perform)
  | .query q =>
    s.plain (Call.locked .read do
      let s ← Call.session
      ofExcept (q.answer s.tree s.registry))
  | .withLock mode steps =>
    match s.lock.acquire mode with
    | .error why => (.plain (.error (.lockRefused why)), s)
    | .ok lock =>
      let (answers, s) := run { s with lock } steps
      (.nested answers, { s with lock := s.lock.release })
  | .poison => (.plain (.ok .done), { s with lock := s.lock.poison })

/-- **A sequence of steps**: the answers, and the session after the last one. -/
def run (s : Session) : List Step → List Answer × Session
  | [] => ([], s)
  | first :: rest =>
    let (answer, s) := s.step first
    let (answers, s) := s.run rest
    (answer :: answers, s)

end

end Session

end PolicyTree
