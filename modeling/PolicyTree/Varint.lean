import PolicyTree.Error

/-!
# Variable-length integers

A signed 64-bit number is written in one to nine bytes. From −112 to 127 the number is its own
byte. Any other number has a first byte that tells its sign and how many bytes follow, and then
its magnitude, most significant byte first, in the fewest bytes.

* `Varint.encode`: the bytes of a number.
* `Varint.decode`, `Varint.decodeShort`: the number at the start of some bytes, and how many bytes
  it takes. Only the one shortest form is read.
* `Varint.size`, `Varint.sizeOfFirst`, `Varint.isNegativeFirst`: the length and the sign, from the
  number and from the first byte alone.
-/

namespace PolicyTree.Varint

/-- The numbers written as a single byte. -/
def IsSingle (v : Int64) : Prop := -112 ≤ v ∧ v ≤ 127

instance (v : Int64) : Decidable (IsSingle v) := inferInstanceAs (Decidable (_ ∧ _))

/-- The magnitude of a number: itself, or its complement `-1 - v` if it is negative. -/
def magnitude (v : Int64) : Nat := (if v < 0 then ~~~v else v).toInt.toNat

/-- The number of a given sign and magnitude. -/
def ofMagnitude (negative : Bool) (m : Nat) : Int64 :=
  if negative then ~~~(Int64.ofNat m) else Int64.ofNat m

/-- The fewest bytes that hold a magnitude. -/
def payloadLength (m : Nat) : Nat := m.log2 / 8 + 1

/-- The lowest `n` bytes of a number, most significant first. -/
def bigEndian : (n m : Nat) → List UInt8
  | 0, _ => []
  | n + 1, m => bigEndian n (m / 256) ++ [UInt8.ofNat m]

/-- The number whose bytes are given, most significant first. -/
def ofBigEndian (bytes : List UInt8) : Nat := bytes.foldl (fun m b => m * 256 + b.toNat) 0

/-- The first byte of a number that takes more: the sign's base less the payload's length. -/
def firstByte (negative : Bool) (length : Nat) : Int8 :=
  (if negative then -120 else -112) - Int8.ofNat length

/-- **The bytes of a number.** -/
def encode (v : Int64) : List UInt8 :=
  if IsSingle v then [v.toInt8.toUInt8]
  else
    let length := payloadLength (magnitude v)
    (firstByte (v < 0) length).toUInt8 :: bigEndian length (magnitude v)

/-- How many bytes a number takes. -/
def size (v : Int64) : Nat :=
  if IsSingle v then 1 else 1 + payloadLength (magnitude v)

/-- How many bytes a number takes, from its first byte. -/
def sizeOfFirst (first : Int8) : Nat :=
  if -112 ≤ first then 1
  else if first < -120 then (-119 - first.toInt).toNat
  else (-111 - first.toInt).toNat

/-- Whether a number is negative, from its first byte. -/
def isNegativeFirst (first : Int8) : Bool := first < -120 || (-112 ≤ first && first < 0)

/-- **The number at the start of some bytes**, and how many of them it takes. -/
def decode : List UInt8 → Except Error (Int64 × Nat)
  | [] => .error (.corrupt .noInteger)
  | b :: rest =>
    let first := b.toInt8
    let size := sizeOfFirst first
    if size = 1 then .ok (first.toInt64, 1)
    else if rest.length < size - 1 then .error (.corrupt .truncatedInteger)
    else
      let m := ofBigEndian (rest.take (size - 1))
      let v := ofMagnitude (isNegativeFirst first) m
      if m < 0x8000000000000000 ∧ Varint.size v = size then .ok (v, size)
      else .error (.corrupt .paddedInteger)

/-- The number at the start of some bytes, if it lies within 32 bits. -/
def decodeShort (bytes : List UInt8) : Except Error (Int32 × Nat) := do
  let (v, size) ← decode bytes
  if Int32.minValue.toInt ≤ v.toInt ∧ v.toInt ≤ Int32.maxValue.toInt then
    return (v.toInt32, size)
  else
    throw (.corrupt .wideInteger)

end PolicyTree.Varint
