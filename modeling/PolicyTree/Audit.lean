import PolicyTree.Attribute

/-!
# The audit log

Every change of a policy attribute is recorded, with the path of the directory, the attributes
written or removed, and the token by which the client may repeat its request.
-/

namespace PolicyTree

/-- Tells a repeated request from a new one. -/
structure RetryToken where
  client : UInt64
  call : UInt32
  deriving DecidableEq, Repr

/-- What happened to the recorded attributes. -/
inductive Change where
  | set
  | removed
  deriving DecidableEq, Repr

/-- A recorded change. -/
structure AuditRecord where
  change : Change
  path : String
  attributes : List Attribute
  retry : Option RetryToken
  deriving DecidableEq, Repr

/-- Where records go. -/
inductive AuditTrail where
  | discarding
  /-- The records so far, oldest first. -/
  | keeping (records : List AuditRecord)
  deriving DecidableEq, Repr

namespace AuditTrail

/-- The records that are kept. -/
def records? : AuditTrail → Option (List AuditRecord)
  | .discarding => none
  | .keeping records => some records

/-- One record more. -/
def record : AuditTrail → AuditRecord → AuditTrail
  | .discarding, _ => .discarding
  | .keeping records, r => .keeping (records ++ [r])

end AuditTrail

end PolicyTree
