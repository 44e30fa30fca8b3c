/-!
# Erasure coding policies

A policy is a code with its numbers of data and parity units, and the size of the cells in which
data is cut. Its name is composed of these; its id is given.

* `Policy.nameOf`, `Policy.name`: the name.
* `systemPolicies`: the policies that are always known.
* `carriedId`: the policy id that a file carries.
-/

namespace PolicyTree

/-- A code and its numbers of data and parity units. -/
structure Schema where
  codec : String
  data : UInt8
  parity : UInt8
  deriving DecidableEq, Repr

/-- A policy; the cell size is in bytes. -/
structure Policy where
  id : UInt8
  schema : Schema
  cellSize : UInt32
  deriving DecidableEq, Repr

namespace Policy

/-- **The name of a schema with a cell size**: the codec in ASCII capitals, the data and the parity
units, and the whole kibibytes of a cell, with dashes between. -/
def nameOf (schema : Schema) (cellSize : UInt32) : String :=
  String.ofList (schema.codec.toList.map Char.toUpper) ++ "-" ++ schema.data.toNat.repr
    ++ "-" ++ schema.parity.toNat.repr ++ "-" ++ (cellSize.toNat / 1024).repr ++ "k"

/-- The name of a policy. -/
def name (p : Policy) : String := nameOf p.schema p.cellSize

/-- A policy with its id, for people to read. -/
def display (p : Policy) : String := p.name ++ " (id=" ++ p.id.toNat.repr ++ ")"

end Policy

/-- The cell size of the system policies, one mebibyte. -/
def systemCellSize : UInt32 := 1048576

/-- The policies that are always known, by increasing id. -/
def systemPolicies : List Policy :=
  [⟨1, ⟨"rs", 6, 3⟩, systemCellSize⟩,
    ⟨2, ⟨"rs", 3, 2⟩, systemCellSize⟩,
    ⟨3, ⟨"rs-legacy", 6, 3⟩, systemCellSize⟩,
    ⟨4, ⟨"xor", 2, 1⟩, systemCellSize⟩,
    ⟨5, ⟨"rs", 10, 4⟩, systemCellSize⟩]

/-- The policy id that a file carries; a negative number stands for none. -/
def carriedId (raw : Int8) : Option UInt8 := if raw < 0 then none else some raw.toUInt8

end PolicyTree
