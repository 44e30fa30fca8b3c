import PolicyTree.Error

/-!
# Extended attributes

A node holds a few named byte strings, in the order in which the names first came.

* `SetFlags.check`: whether an attribute may be written, given that its name is taken or free.
* `AttributeSet`: the attributes of one node; a write replaces in place or appends.
* `AttributeSet.run`: a sequence of operations, with the set after each.
-/

namespace PolicyTree

/-- A named value. -/
structure Attribute where
  name : String
  value : List UInt8
  deriving DecidableEq, Repr

/-- What a write may do. Only the two lowest bits mean anything; the others are kept. -/
structure SetFlags where
  bits : UInt8
  deriving DecidableEq, Repr

namespace SetFlags

/-- Write a name that is free. -/
def create : SetFlags := ⟨1⟩

/-- Write a name that is taken. -/
def replace : SetFlags := ⟨2⟩

/-- All bits of `g` are set in `f`. -/
def includes (f g : SetFlags) : Bool := f.bits &&& g.bits == g.bits

/-- A taken name asks for `replace`, a free one for `create`. -/
def check (f : SetFlags) (taken : Bool) : Except Error Unit :=
  if taken && !f.includes replace then .error .attributeExists
  else if !taken && !f.includes create then .error .attributeMissing
  else .ok ()

end SetFlags

/-- The attributes of one node, oldest name first. -/
structure AttributeSet where
  toList : List Attribute := []
  deriving DecidableEq, Repr

namespace AttributeSet

/-- The attribute of a name. -/
def find? (s : AttributeSet) (name : String) : Option Attribute :=
  s.toList.find? (·.name == name)

/-- How many attributes have a name. -/
def count (s : AttributeSet) (name : String) : Nat := s.toList.countP (·.name == name)

/-- There is no attribute. -/
def isEmpty (s : AttributeSet) : Bool := s.toList.isEmpty

/-- Replaces the first attribute of the same name, or adds the attribute at the end. -/
def write (a : Attribute) : List Attribute → List Attribute
  | [] => [a]
  | b :: rest => if b.name = a.name then a :: rest else b :: write a rest

/-- Writes an attribute, if the flags allow it. -/
def set (s : AttributeSet) (a : Attribute) (flags : SetFlags) : Except Error AttributeSet := do
  flags.check (s.find? a.name).isSome
  return ⟨write a s.toList⟩

/-- Takes out the first attribute of a name. -/
def erase (s : AttributeSet) (name : String) : AttributeSet :=
  ⟨s.toList.eraseP (·.name == name)⟩

/-- An operation on the attributes of one node. -/
inductive Op where
  | set (a : Attribute) (flags : SetFlags)
  | get (name : String)
  | remove (name : String)
  | count (name : String)
  deriving DecidableEq, Repr

/-- The answer to an operation. -/
inductive Answer where
  | done (result : Except Error Unit)
  | found (a : Option Attribute)
  | count (n : Nat)

/-- One operation: its answer and the set after it. A write that fails changes nothing. -/
def step (s : AttributeSet) : Op → Answer × AttributeSet
  | .set a flags =>
    match s.set a flags with
    | .ok s' => (.done (.ok ()), s')
    | .error e => (.done (.error e), s)
  | .get name => (.found (s.find? name), s)
  | .remove name => (.found (s.find? name), s.erase name)
  | .count name => (.count (s.count name), s)

/-- The answers to a sequence of operations, each with the set after it. -/
def run (s : AttributeSet) : List Op → List (Answer × AttributeSet)
  | [] => []
  | op :: rest =>
    let answer := s.step op
    answer :: answer.2.run rest

end AttributeSet

end PolicyTree
