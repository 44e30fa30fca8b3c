import PolicyTree.PolicyName
import PolicyTree.Registry
import PolicyTree.Tree.Basic

/-!
# The policy in force

Along a chain, from the target up, the first node that has something to say decides. A file has
its own policy, a link has none, and a directory speaks through its policy attribute if it carries
one. A directory whose policy is not enabled has none; its parents are not asked.

* `Node.verdict?`: what a node alone says.
* `Tree.inForce`: the policy in force for the target of a chain.
-/

namespace PolicyTree

/-- What a node says about the policy for itself and for what lies below it. -/
def Node.verdict? (n : Node) (r : Registry) : Option (Except Error (Option Policy)) :=
  match n.kind with
  | .file _ => some (.ok (n.policyId?.bind r.byId?))
  | .link _ => some (.ok none)
  | .directory _ =>
    (n.attributes.find? PolicyName.key).map fun a =>
      (PolicyName.ofAttribute a).map r.enabledNamed?

namespace Tree

/-- What the node of a chain's entry says. A missing entry and an unknown id say nothing. -/
def verdict? (t : Tree) (r : Registry) (entry : Option NodeId) :
    Option (Except Error (Option Policy)) :=
  (entry.bind t.node?).bind (·.verdict? r)

/-- **The policy in force for the target of a chain**: the verdict nearest to the target. -/
def inForce (t : Tree) (r : Registry) (c : Chain) : Except Error (Option Policy) :=
  (c.entries.reverse.findSome? (t.verdict? r)).getD (.ok none)

/-- There is a policy in force for the target of a chain. -/
def isCovered (t : Tree) (r : Registry) (c : Chain) : Except Error Bool :=
  (t.inForce r c).map Option.isSome

/-- The policy attribute that a node itself carries. Links never show one. -/
def ownPolicy? (t : Tree) (id : NodeId) : Option Attribute :=
  match t.node? id with
  | some n => if n.kind.type = .link then none else n.attributes.find? PolicyName.key
  | none => none

end Tree

end PolicyTree
