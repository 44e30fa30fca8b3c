import PolicyTree.Chain
import PolicyTree.Path

/-!
# The tree

The nodes stand in a list, and the id of a node is its place in it. Nodes are added at the end and
never taken away.

* `Tree.empty`: the tree that holds the root alone.
* `Tree.chain`: the nodes along a path. Symbolic links are not followed.
* `Tree.Edit`: an action on the tree. One that fails leaves the tree as it is at that moment.
* `Tree.putAttribute`, `Tree.removeAttribute`: changes to the attributes of a node.
-/

namespace PolicyTree

open MonadExcept (ofExcept)

/-- The nodes, each at the place of its id. -/
structure Tree where
  nodes : List Node
  deriving DecidableEq, Repr

namespace Tree

/-- The id of the root. -/
def root : NodeId := 0

/-- The tree that holds the root alone. -/
def empty : Tree := ⟨[{ id := root, name := "", parent := none, kind := .emptyDirectory }]⟩

/-- The number of nodes. -/
def size (t : Tree) : Nat := t.nodes.length

/-- There is no node but the root. -/
def isEmpty (t : Tree) : Bool := t.size == 1

/-- The node of an id. -/
def node? (t : Tree) (id : NodeId) : Option Node := t.nodes[id]?

/-- An id names a directory. -/
def isDirectory (t : Tree) (id : NodeId) : Bool := (t.node? id).any Node.isDirectory

/-- The child of a name in the directory of an id. -/
def child? (t : Tree) (id : NodeId) (name : String) : Option NodeId :=
  (t.node? id).bind (·.child? name)

/-- The tree with the node of an id changed. -/
def update (t : Tree) (id : NodeId) (f : Node → Node) : Tree := ⟨t.nodes.modify id f⟩

/-- The nodes met from a node down along a list of names, that node first. Nothing is met after
the first name that leads nowhere. -/
def trail (t : Tree) : Option NodeId → List String → List (Option NodeId)
  | here, [] => [here]
  | here, name :: rest => here :: t.trail (here.bind (t.child? · name)) rest

/-- **The nodes along a path**, from the root to the target. -/
def chain (t : Tree) (path : String) : Except Error Chain := do
  let names ← Path.normalize path
  return ⟨Path.join names, t.trail (some root) names⟩

/-- The id of the node at a path. -/
def lookup (t : Tree) (path : String) : Except Error (Option NodeId) :=
  (t.chain path).map Chain.last?

/-- The attribute of a name on the node of an id. -/
def attribute? (t : Tree) (id : NodeId) (name : String) : Option Attribute :=
  (t.node? id).bind (·.attributes.find? name)

/-- How many attributes of a name the node of an id has. -/
def attributeCount? (t : Tree) (id : NodeId) (name : String) : Option Nat :=
  (t.node? id).map (·.attributes.count name)

/-- An action on the tree: an answer or an error, and the tree after it in both cases. -/
abbrev Edit := EStateM Error Tree

/-- The node of an id, which must be there. -/
def getNode (id : NodeId) : Edit Node := do
  match (← get).node? id with
  | some n => return n
  | none => throw .nodeMissing

/-- Writes an attribute of a node, if the flags allow it. -/
def putAttribute (id : NodeId) (a : Attribute) (flags : SetFlags) : Edit Unit := do
  let n ← getNode id
  let attributes ← ofExcept (n.attributes.set a flags)
  modify (·.update id fun n => { n with attributes })

/-- Takes an attribute off a node, and answers with it. -/
def removeAttribute (id : NodeId) (name : String) : Edit (Option Attribute) := do
  let n ← getNode id
  modify (·.update id fun n => { n with attributes := n.attributes.erase name })
  return n.attributes.find? name

end Tree

end PolicyTree
