import PolicyTree.Node

/-!
# Chains

A chain is a path together with the nodes met on the way, the root first and the target last; an
entry is missing where there is no node. A chain may also be put together by hand.
-/

namespace PolicyTree

/-- A path and the nodes along it. -/
structure Chain where
  path : String
  entries : List (Option NodeId)
  deriving DecidableEq, Repr

/-- The id of the target, if the last entry is present. -/
def Chain.last? (c : Chain) : Option NodeId := c.entries.getLast?.join

end PolicyTree
