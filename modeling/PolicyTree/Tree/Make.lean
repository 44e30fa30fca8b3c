import PolicyTree.Tree.Basic

/-!
# Making nodes

* `Tree.makeDirectory`, `Tree.makeFile`, `Tree.makeLink`: a new node at a path; its parent must be
  there.
* `Tree.makeDirectories`: all the directories along a path that are not there yet.

An error carries the path as it was given.
-/

namespace PolicyTree.Tree

open MonadExcept (ofExcept)

/-- What a directory holds under a name, on a walk along `path`. -/
def childOf (t : Tree) (dir : NodeId) (name path : String) : Except Error (Option NodeId) :=
  match t.node? dir with
  | none => .error (.danglingNode path)
  | some n =>
    match n.children? with
    | none => .error (.componentNotDirectory path)
    | some children => .ok (children.find? name)

/-- The tree with one more node, which a directory holds under a name. -/
def add (t : Tree) (dir : NodeId) (name : String) (kind : NodeKind) : Tree :=
  ⟨t.nodes.modify dir (·.hold name t.size)
    ++ [{ id := t.size, name, parent := some dir, kind }]⟩

/-- Adds a node to a directory under a name, and answers with the new node's id. -/
def insert (dir : NodeId) (name : String) (kind : NodeKind) : Edit NodeId := do
  let t ← get
  if t.isDirectory dir then
    set (t.add dir name kind)
    return t.size
  else
    throw .parentNotDirectory

/-- Walks from a directory along the names of `path` and adds a node under the last of them. -/
def makeUnder (path : String) (kind : NodeKind) : NodeId → List String → Edit NodeId
  | _, [] => throw .rootExists
  | dir, [name] => do
    match ← ofExcept ((← get).childOf dir name path) with
    | some _ => throw (.pathExists path)
    | none => insert dir name kind
  | dir, name :: rest => do
    match ← ofExcept ((← get).childOf dir name path) with
    | some child => makeUnder path kind child rest
    | none => throw (.parentMissing path)

/-- **A new node at a path.** -/
def make (path : String) (kind : NodeKind) : Edit NodeId := do
  makeUnder path kind root (← ofExcept (Path.normalize path))

/-- A new, empty directory. -/
def makeDirectory (path : String) : Edit NodeId := make path .emptyDirectory

/-- A new file that carries a policy id for good; a negative number stands for none. -/
def makeFile (path : String) (policyId : Int8) : Edit NodeId := make path (.file policyId)

/-- A new symbolic link. Where it points is not looked at. -/
def makeLink (path target : String) : Edit NodeId := make path (.link target)

/-- Walks from a directory along the names of `path` and adds the directories that are missing. -/
def makeDirectoriesUnder (path : String) : NodeId → List String → Edit NodeId
  | dir, [] => return dir
  | dir, name :: rest => do
    match ← ofExcept ((← get).childOf dir name path) with
    | some child =>
      if (← get).isDirectory child then makeDirectoriesUnder path child rest
      else throw (.componentNotDirectory path)
    | none => makeDirectoriesUnder path (← insert dir name .emptyDirectory) rest

/-- **All directories along a path.** Those that are there stay as they are. -/
def makeDirectories (path : String) : Edit NodeId := do
  makeDirectoriesUnder path root (← ofExcept (Path.normalize path))

end PolicyTree.Tree
