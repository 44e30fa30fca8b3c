import PolicyTree.Tree.Basic

/-!
# Access

* `Checker`: decides whether the target of a chain may be used in some mode. Its error is passed on
  as it is.
* `DenyRule`: turns down some modes, on some paths or on all.
-/

namespace PolicyTree

/-- A set of ways to use a node, one bit each. -/
structure AccessMode where
  bits : UInt8
  deriving DecidableEq, Repr

namespace AccessMode

/-- Passing through. -/
def execute : AccessMode := ⟨1⟩

/-- Writing. -/
def write : AccessMode := ⟨2⟩

/-- Reading. -/
def read : AccessMode := ⟨4⟩

/-- Two modes share a way. -/
def meets (a b : AccessMode) : Bool := a.bits &&& b.bits != 0

end AccessMode

/-- Decides about an access to the target of a chain. -/
abbrev Checker := Tree → Chain → AccessMode → Except Error Unit

/-- Lets every access through. -/
def Checker.allowAll : Checker := fun _ _ _ => .ok ()

/-- Some modes that are turned down, on the given paths or on all. -/
structure DenyRule where
  mode : AccessMode
  paths : Option (List String) := none
  kind : ErrorKind := .accessDenied
  deriving DecidableEq, Repr

namespace DenyRule

/-- The rule turns an access down. -/
def applies (rule : DenyRule) (path : String) (mode : AccessMode) : Bool :=
  mode.meets rule.mode && rule.paths.all (·.contains path)

/-- The checker that follows a rule. -/
def checker (rule : DenyRule) : Checker := fun _ c mode =>
  if rule.applies c.path mode then .error (.denied rule.kind c.path) else .ok ()

end DenyRule

end PolicyTree
