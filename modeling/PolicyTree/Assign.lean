import PolicyTree.Inherit

/-!
# Assigning policies

Only a directory can be given a policy of its own, or have it taken away.

* `Tree.assign`: writes the policy attribute of a chain's target, new or in place of the old one.
* `Tree.unassign`: takes the attribute away, if there is one.
-/

namespace PolicyTree

open MonadExcept (ofExcept)

/-- What was written to give a directory a policy. -/
structure Assignment where
  policy : Policy
  attributes : List Attribute
  flags : SetFlags
  deriving DecidableEq, Repr

namespace Tree

/-- The directory that a chain leads to; `wrong` is the error if the target is none. -/
def targetDirectory (t : Tree) (c : Chain) (wrong : Error) : Except Error NodeId :=
  match c.last? with
  | none => .error (.targetMissing c.path)
  | some id =>
    match t.node? id with
    | none => .error (.targetMissing c.path)
    | some n => if n.isDirectory then .ok id else .error wrong

/-- **Gives the target of a chain a policy.** -/
def assign (c : Chain) (p : Policy) : Edit Assignment := do
  let t ← get
  let id ← ofExcept (t.targetDirectory c (.assignToNonDirectory c.path))
  let flags := if (t.ownPolicy? id).isSome then SetFlags.replace else SetFlags.create
  let a := PolicyName.toAttribute p.name
  putAttribute id a flags
  return ⟨p, [a], flags⟩

/-- **Takes the target's own policy away**, and answers with what was taken. -/
def unassign (c : Chain) : Edit (Option (List Attribute)) := do
  let t ← get
  let id ← ofExcept (t.targetDirectory c (.unassignFromNonDirectory c.path))
  match t.ownPolicy? id with
  | none => return none
  | some a => return (← removeAttribute id a.name).map ([·])

end Tree

end PolicyTree
