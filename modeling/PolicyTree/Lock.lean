import PolicyTree.Error

/-!
# The lock of the tree

The tree has many readers or one writer. There are two kinds of lock. One counts its holders and
refuses at once whoever would have to wait. The other is held only for the length of a call, and is
poisoned when a writer breaks off: it refuses everybody from then on.

* `Lock.acquire`, `Lock.release`: taking a lock and giving it back.
* `Lock.poison`: a writer breaks off.
-/

namespace PolicyTree

/-- What the lock is taken for. -/
inductive LockMode where
  | read
  | write
  deriving DecidableEq, Repr

/-- The word for a mode. -/
def LockMode.name : LockMode → String
  | .read => "read"
  | .write => "write"

/-- A lock and who holds it. -/
inductive Lock where
  /-- Held by some number of readers, and by no writer. -/
  | shared (readers : Nat)
  /-- Held by a writer. -/
  | exclusive
  /-- A lock of the other kind, sound or poisoned. -/
  | poisonable (poisoned : Bool)
  deriving DecidableEq, Repr

namespace Lock

/-- Nobody holds the lock. -/
def free : Lock := .shared 0

/-- **The lock once it is taken**, or why it is refused. -/
def acquire : Lock → LockMode → Except Refusal Lock
  | .shared n, .read => .ok (.shared (n + 1))
  | .shared 0, .write => .ok .exclusive
  | .shared (_ + 1), .write => .error .held
  | .exclusive, .read => .error .heldForWriting
  | .exclusive, .write => .error .held
  | .poisonable false, _ => .ok (.poisonable false)
  | .poisonable true, .read => .error .poisonedForReading
  | .poisonable true, .write => .error .poisonedForWriting

/-- The lock once a holder gives it back. -/
def release : Lock → Lock
  | .shared n => .shared (n - 1)
  | .exclusive => .shared 0
  | .poisonable poisoned => .poisonable poisoned

/-- The lock once a writer has broken off. A lock that counts its holders is none the worse. -/
def poison : Lock → Lock
  | .poisonable _ => .poisonable true
  | lock => lock

end Lock

end PolicyTree
