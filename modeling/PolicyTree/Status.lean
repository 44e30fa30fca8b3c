import PolicyTree.Inherit

/-!
# The status of a node

* `Status`: what is shown of a node.
* `Tree.status`: the status of a chain's target.
-/

namespace PolicyTree

/-- What is shown of a node. -/
structure Status where
  path : String
  id : NodeId
  type : NodeType
  /-- The policy in force. -/
  policy : Option Policy
  /-- Where a link points. -/
  target : Option String
  deriving DecidableEq, Repr

namespace Status

/-- The node is a directory. -/
def isDirectory (s : Status) : Bool := s.type == .directory

/-- There is a policy in force. -/
def isErasureCoded (s : Status) : Bool := s.policy.isSome

end Status

/-- **The status of a chain's target**, which must be there. A damaged policy attribute on the way
is shown as no policy. -/
def Tree.status (t : Tree) (r : Registry) (c : Chain) : Except Error Status :=
  match c.last?.bind t.node? with
  | none => .error (.targetMissing c.path)
  | some n =>
    .ok { path := c.path, id := n.id, type := n.kind.type, target := n.target?,
          policy := (t.inForce r c).toOption.join }

end PolicyTree
