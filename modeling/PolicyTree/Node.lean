import PolicyTree.Attribute
import PolicyTree.Policy
import PolicyTree.Sorted
import PolicyTree.Text.Utf8

/-!
# Nodes

A node is a directory, a file or a symbolic link. It knows its own id, its name and the id of the
directory that it lies in.

* `Children`: the names in a directory with the ids that they lead to, ordered by the names' bytes.
* `Node`, `NodeKind`: a node and what it is.
-/

namespace PolicyTree

/-- The number of a node. -/
abbrev NodeId := Nat

/-- Names are ordered by their UTF-8 bytes. -/
def NameBefore (a b : String) : Prop := Text.utf8 a < Text.utf8 b

instance (a b : String) : Decidable (NameBefore a b) :=
  inferInstanceAs (Decidable (Text.utf8 a < Text.utf8 b))

/-- What a directory holds: names, in order, and the ids that they lead to. -/
structure Children where
  toList : List (String × NodeId) := []
  deriving DecidableEq, Repr

namespace Children

/-- The id that a name leads to. -/
def find? (c : Children) (name : String) : Option NodeId :=
  (c.toList.find? (·.1 == name)).map (·.2)

/-- Lets a name lead to an id, in the name's place. -/
def insert (c : Children) (name : String) (id : NodeId) : Children := ⟨place NameBefore name id c.toList⟩

end Children

/-- What a node is. -/
inductive NodeKind where
  | directory (children : Children)
  /-- A file, with the policy id that it was made with. -/
  | file (policyId : Int8)
  | link (target : String)
  deriving DecidableEq, Repr

/-- A directory that holds nothing. -/
def NodeKind.emptyDirectory : NodeKind := .directory {}

/-- The three types of node. -/
inductive NodeType where
  | directory
  | file
  | link
  deriving DecidableEq, Repr

/-- The number by which a type is known outside. -/
def NodeType.code : NodeType → Nat
  | .directory => 1
  | .file => 2
  | .link => 3

/-- The type of a node of a given kind. -/
def NodeKind.type : NodeKind → NodeType
  | .directory _ => .directory
  | .file _ => .file
  | .link _ => .link

/-- A node of the tree. -/
structure Node where
  id : NodeId
  name : String
  /-- The directory that the node lies in; none for the root. -/
  parent : Option NodeId
  kind : NodeKind
  attributes : AttributeSet := {}
  deriving DecidableEq, Repr

namespace Node

/-- The node is a directory. -/
def isDirectory (n : Node) : Bool := n.kind.type == .directory

/-- What a directory holds. -/
def children? (n : Node) : Option Children :=
  match n.kind with
  | .directory children => some children
  | _ => none

/-- The child of a name; a node that is no directory has none. -/
def child? (n : Node) (name : String) : Option NodeId := n.children?.bind (·.find? name)

/-- A directory that holds one more name; a node of another kind stays as it is. -/
def hold (n : Node) (name : String) (id : NodeId) : Node :=
  match n.kind with
  | .directory children => { n with kind := .directory (children.insert name id) }
  | _ => n

/-- The number that a file was made with in place of a policy id. -/
def rawPolicyId? (n : Node) : Option Int8 :=
  match n.kind with
  | .file raw => some raw
  | _ => none

/-- The policy id that a file carries. -/
def policyId? (n : Node) : Option UInt8 := n.rawPolicyId?.bind carriedId

/-- Where a symbolic link points. -/
def target? (n : Node) : Option String :=
  match n.kind with
  | .link target => some target
  | _ => none

end Node

end PolicyTree
