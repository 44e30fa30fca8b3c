import PolicyTree.Assign
import PolicyTree.Session.Basic
import PolicyTree.Status

/-!
# The four calls

* `Call.assignPolicy`, `Call.unassignPolicy`: give a directory a policy of its own, or take it
  away. A change is recorded once the lock is given back.
* `Call.policyInForce`: the policy in force at a path, which must be there.
* `Call.isCovered`: whether there is a policy in force at a path, be it there or not.
-/

namespace PolicyTree

open MonadExcept (ofExcept)

/-- What assigning a policy comes to. -/
structure AssignOutcome where
  assignment : Assignment
  status : Status
  deriving DecidableEq, Repr

/-- What taking a policy away comes to. -/
structure UnassignOutcome where
  /-- What was taken away; none if there was nothing. -/
  removed : Option (List Attribute)
  status : Status
  deriving DecidableEq, Repr

/-- There was nothing to take away. -/
def UnassignOutcome.isNoop (o : UnassignOutcome) : Bool := o.removed.isNone

namespace Call

/-- **Gives the directory at a path an enabled policy.** The policy is looked up before the lock is
taken. -/
def assignPolicy (path name : String) (retry : Option RetryToken) : Call AssignOutcome := do
  let policy ← ofExcept ((← session).registry.require name)
  let outcome ← locked .write do
    let chain ← resolve path
    check chain .write
    let assignment ← edit (Tree.assign chain policy)
    let s ← session
    let status ← ofExcept (s.tree.status s.registry chain)
    return { assignment, status }
  record ⟨.set, outcome.status.path, outcome.assignment.attributes, retry⟩
  return outcome

/-- **Takes the policy of the directory at a path away.** If it has none of its own, nothing
happens. -/
def unassignPolicy (path : String) (retry : Option RetryToken) : Call UnassignOutcome := do
  let outcome ← locked .write do
    let chain ← resolve path
    check chain .write
    let removed ← edit (Tree.unassign chain)
    let s ← session
    let status ← ofExcept (s.tree.status s.registry chain)
    return { removed, status }
  if let some attributes := outcome.removed then
    record ⟨.removed, outcome.status.path, attributes, retry⟩
  return outcome

/-- **The policy in force at a path.** -/
def policyInForce (path : String) : Call (Option Policy) :=
  locked .read do
    let chain ← resolve path
    check chain .read
    if chain.last?.isNone then throw (.targetMissing chain.path)
    let s ← session
    ofExcept (s.tree.inForce s.registry chain)

/-- **There is a policy in force at a path.** Access is not checked. -/
def isCovered (path : String) : Call Bool :=
  locked .read do
    let chain ← resolve path
    let s ← session
    ofExcept (s.tree.isCovered s.registry chain)

end Call

end PolicyTree
