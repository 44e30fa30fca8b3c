import PolicyTree.Proofs.Canonical

/-!
# The lengths of numbers

A number is written byte by byte, and the length is worked out more than once: from the number, from the
zeros that lead its magnitude, and from its first byte.

* `Varint.append?`: the writer with every step that can fail, behind the bytes that are there already.
* `Varint.lengthOfZeros_eq`: the zeros that lead a magnitude tell the fewest bytes that hold it.
* `Varint.first_of_single`, `Varint.first_of_payload`: what the first byte tells of a number.
* `Varint.lengths_agree`: **the writer never fails, and all lengths and signs agree.**
-/

namespace PolicyTree.Varint

variable {v : Int64} {buffer scratch : List UInt8} {m n : Nat}

/-! ## Steps that can fail -/

/-- The difference of two bytes, if it is a byte. -/
def sub? (a b : Int8) : Option Int8 :=
  if -128 ≤ a.toInt - b.toInt ∧ a.toInt - b.toInt ≤ 127 then some (a - b) else none

/-- The first bytes, if there are that many. -/
def first? (bytes : List UInt8) (n : Nat) : Option (List UInt8) :=
  if n ≤ bytes.length then some (bytes.take n) else none

/-- What writes a number of so many bytes to the start of a space, if it can. -/
abbrev Writer := (space : List UInt8) → (m n : Nat) → Option (List UInt8)

/-- A writer of numbers: one to eight bytes that hold the number and fit the space are written, most
significant first, and the space behind them is left as it is. -/
def Writer.IsBigEndian (write : Writer) : Prop :=
  ∀ space m n, 1 ≤ n → n ≤ 8 → m < 256 ^ n → n ≤ space.length →
    write space m n = some (bigEndian n m ++ space.drop n)

/-- The writer that fails on all else. -/
def Writer.strict : Writer := fun space m n =>
  if 1 ≤ n ∧ n ≤ 8 ∧ m < 256 ^ n ∧ n ≤ space.length then some (bigEndian n m ++ space.drop n) else none

theorem Writer.isBigEndian_strict : Writer.strict.IsBigEndian :=
  fun _ _ _ hpos hle hm hspace => if_pos ⟨hpos, hle, hm, hspace⟩

/-- The length of a payload from the zeros that lead a magnitude of 64 bits. -/
def lengthOfZeros (m : Nat) : Nat := (64 - (BitVec.ofNat 64 m).clz.toNat + 7) / 8

/-- **The bytes of a number, written behind those that are there**, if no step fails. A payload is written to
eight bytes of scratch space first. -/
def append? (write : Writer) (buffer : List UInt8) (v : Int64) : Option (List UInt8) :=
  if IsSingle v then some (buffer ++ [v.toInt8.toUInt8])
  else do
    let length := lengthOfZeros (magnitude v)
    let first ← sub? (if v < 0 then -120 else -112) (Int8.ofNat length)
    let scratch ← write (List.replicate 8 0) (magnitude v) length
    let payload ← first? scratch length
    return buffer ++ [first.toUInt8] ++ payload

/-! ## Leading zeros -/

/-- **The zeros that lead a magnitude tell the fewest bytes that hold it.** There are none that hold zero. -/
theorem lengthOfZeros_eq (hpos : 0 < m) (hm : m < 2 ^ 64) : lengthOfZeros m = payloadLength m := by
  have htoNat : (BitVec.ofNat 64 m).toNat = m := by rw [BitVec.toNat_ofNat, Nat.mod_eq_of_lt hm]
  have hne : BitVec.ofNat 64 m ≠ 0#64 := by
    intro h
    rw [h, BitVec.toNat_zero] at htoNat
    omega
  have hge := BitVec.two_pow_sub_clz_le_toNat_of_ne_zero (by decide) hne
  have hlt := BitVec.toNat_lt_two_pow_sub_clz (x := BitVec.ofNat 64 m)
  rw [htoNat] at hge hlt
  unfold lengthOfZeros payloadLength
  generalize (BitVec.ofNat 64 m).clz.toNat = zeros at hge hlt ⊢
  -- not all bits are zeros that lead
  have hzeros : zeros < 64 := by
    rcases Nat.lt_or_ge zeros 64 with h | h
    · exact h
    · rw [Nat.sub_eq_zero_of_le h, Nat.pow_zero] at hlt
      omega
  have hlog : m.log2 = 63 - zeros := by
    refine (Nat.log2_eq_iff (by omega)).2 ⟨hge, ?_⟩
    rwa [show 63 - zeros + 1 = 64 - zeros by omega]
  omega

theorem magnitude_pos (h : ¬IsSingle v) : 0 < magnitude v := by
  have hm := magnitude_eq v
  have hrange : ¬(-112 ≤ v.toInt ∧ v.toInt ≤ 127) := fun ⟨hlo, hhi⟩ =>
    h ⟨Int64.le_iff_toInt_le.2 hlo, Int64.le_iff_toInt_le.2 hhi⟩
  split at hm <;> omega

/-- A payload takes one to eight bytes. -/
theorem payload_range (v : Int64) : 1 ≤ payloadLength (magnitude v) ∧ payloadLength (magnitude v) ≤ 8 :=
  ⟨Nat.le_add_left _ _, payloadLength_le (magnitude_lt v)⟩

theorem lengthOfZeros_magnitude (h : ¬IsSingle v) :
    lengthOfZeros (magnitude v) = payloadLength (magnitude v) := by
  have hm := magnitude_lt v
  exact lengthOfZeros_eq (magnitude_pos h) (by omega)

/-! ## First bytes -/

theorem toInt_toInt8 (h : IsSingle v) : v.toInt8.toInt = v.toInt := by
  rw [← Int8.toInt_toInt64, toInt8_toInt64 h]

/-- A number of one byte has that byte's sign. -/
theorem first_of_single (h : IsSingle v) :
    sizeOfFirst v.toInt8 = 1 ∧ isNegativeFirst v.toInt8 = decide (v < 0) := by
  have hlo : -112 ≤ v.toInt8 := by
    rw [Int8.le_iff_toInt_le, toInt_toInt8 h]
    exact Int64.le_iff_toInt_le.1 h.1
  have hsign : v.toInt8 < 0 ↔ v < 0 := by
    rw [Int8.lt_iff_toInt_lt, toInt_toInt8 h, Int64.lt_iff_toInt_lt]
    rfl
  have hbase : ¬v.toInt8 < -120 := by
    rw [Int8.lt_iff_toInt_lt, Int.not_lt]
    exact Int.le_trans (by decide) (Int8.le_iff_toInt_le.1 hlo)
  refine ⟨sizeOfFirst_single h, ?_⟩
  unfold isNegativeFirst
  simp only [hbase, hlo, hsign, decide_false, decide_true, Bool.false_or, Bool.true_and]

/-- The first byte in front of a payload is a byte, for either sign and every length. -/
theorem first_of_payload (negative : Bool) (hpos : 1 ≤ n) (hn : n ≤ 8) :
    sub? (if negative then -120 else -112) (Int8.ofNat n) = some (firstByte negative n) ∧
      (firstByte negative n).toInt = (if negative then -120 else -112) - (n : Int) := by
  have hcases : ∀ n < 9, 1 ≤ n → ∀ negative : Bool,
      sub? (if negative then -120 else -112) (Int8.ofNat n) = some (firstByte negative n) ∧
        (firstByte negative n).toInt = (if negative then -120 else -112) - (n : Int) := by decide
  exact hcases n (by omega) hpos negative

/-! ## The writer -/

theorem append?_single {write : Writer} (h : IsSingle v) :
    append? write buffer v = some (buffer ++ encode v) := by
  unfold append? encode
  rw [if_pos h, if_pos h]

theorem first?_append (rest : List UInt8) (h : buffer.length = n) : first? (buffer ++ rest) n = some buffer := by
  unfold first?
  rw [if_pos (by simp [h]), List.take_left' h]

/-- **No step of the writer fails**, and it writes a number's bytes. -/
theorem append?_eq {write : Writer} (hw : write.IsBigEndian) (buffer : List UInt8) (v : Int64) :
    append? write buffer v = some (buffer ++ encode v) := by
  by_cases hs : IsSingle v
  · exact append?_single hs
  · obtain ⟨hpos, hle⟩ := payload_range v
    have hfirst := (first_of_payload (v < 0) hpos hle).1
    have hwrite := hw (List.replicate 8 0) (magnitude v) _ hpos hle (lt_payload _) (by rwa [List.length_replicate])
    simp only [decide_eq_true_eq] at hfirst
    unfold append? encode
    rw [if_neg hs, if_neg hs]
    simp only [lengthOfZeros_magnitude hs, hfirst, hwrite, first?_append _ (length_bigEndian _ _), bind,
      Option.bind, pure, List.append_assoc, List.singleton_append]

/-- **The lengths, the signs and the ranges agree for every number.** Whatever bytes are there already, the
writer leaves them as they are and puts the number's bytes behind them, one to nine. Their count is the
number's size and what the first of them tells, which tells the number's sign too. A payload takes one to
eight bytes, as the zeros that lead the magnitude tell; it holds the magnitude, and the first byte in front of
it does not leave the range of a byte. -/
theorem lengths_agree {write : Writer} (hw : write.IsBigEndian) (buffer : List UInt8) (v : Int64) :
    (∃ first rest, append? write buffer v = some (buffer ++ first :: rest) ∧ encode v = first :: rest ∧
      (first :: rest).length = size v ∧ 1 ≤ size v ∧ size v ≤ 9 ∧
      sizeOfFirst first.toInt8 = size v ∧ isNegativeFirst first.toInt8 = decide (v < 0)) ∧
    size v = (if IsSingle v then 1 else 1 + lengthOfZeros (magnitude v)) ∧
    (¬IsSingle v →
      1 ≤ lengthOfZeros (magnitude v) ∧ lengthOfZeros (magnitude v) ≤ 8 ∧
        magnitude v < 256 ^ lengthOfZeros (magnitude v) ∧
        -128 ≤ (if v < 0 then -120 else -112) - (lengthOfZeros (magnitude v) : Int) ∧
        (if v < 0 then -120 else -112) - (lengthOfZeros (magnitude v) : Int) ≤ 127 ∧
        (encode v).head? = some (firstByte (v < 0) (lengthOfZeros (magnitude v))).toUInt8 ∧
        (firstByte (v < 0) (lengthOfZeros (magnitude v))).toInt =
          (if v < 0 then -120 else -112) - (lengthOfZeros (magnitude v) : Int)) := by
  have happend := append?_eq hw buffer v
  have hlength := length_encode v
  by_cases hs : IsSingle v
  · -- the one byte is the number itself
    obtain ⟨hfirst, hsign⟩ := first_of_single hs
    have hsize : size v = 1 := if_pos hs
    have hencode : encode v = [v.toInt8.toUInt8] := if_pos hs
    rw [hencode] at happend hlength
    refine ⟨⟨_, [], happend, hencode, hlength, by omega, by omega, ?_, ?_⟩, ?_, fun h => absurd hs h⟩
    · rw [Int8.toInt8_toUInt8, hfirst, hsize]
    · rw [Int8.toInt8_toUInt8, hsign]
    · rw [hsize, if_pos hs]
  · -- all lengths are that of the payload, and one more
    obtain ⟨hpos, hle⟩ := payload_range v
    obtain ⟨hfirst, hsign⟩ := firstByte_spec _ (by omega) hpos (v < 0)
    have hvalue := (first_of_payload (v < 0) hpos hle).2
    simp only [decide_eq_true_eq] at hvalue
    have hsize : size v = 1 + payloadLength (magnitude v) := if_neg hs
    have hencode : encode v = (firstByte (v < 0) (payloadLength (magnitude v))).toUInt8 ::
        bigEndian (payloadLength (magnitude v)) (magnitude v) := if_neg hs
    rw [hencode] at happend hlength
    rw [lengthOfZeros_magnitude hs]
    refine ⟨⟨_, _, happend, hencode, hlength, by omega, by omega, ?_, ?_⟩, ?_, fun _ =>
      ⟨hpos, hle, lt_payload _, ?_, ?_, ?_, hvalue⟩⟩
    · rw [Int8.toInt8_toUInt8, hfirst, hsize, Nat.add_comm]
    · rw [Int8.toInt8_toUInt8, hsign]
    · rw [hsize, if_neg hs]
    · split <;> omega
    · split <;> omega
    · rw [hencode, List.head?_cons]

/-- The least number takes nine bytes behind one that is there already, and its first byte is the least there is.
The first byte of the greatest number is the least one in front of a number that is not negative. -/
theorem lengths_agree_extremes :
    Writer.strict.IsBigEndian ∧ ¬IsSingle Int64.minValue ∧ ¬IsSingle Int64.maxValue ∧
      append? Writer.strict [0x07] Int64.minValue =
        some [0x07, 0x80, 0x7f, 0xff, 0xff, 0xff, 0xff, 0xff, 0xff, 0xff] ∧
      (firstByte (Int64.minValue < 0) (lengthOfZeros (magnitude Int64.minValue))).toInt = -128 ∧
      (firstByte (Int64.maxValue < 0) (lengthOfZeros (magnitude Int64.maxValue))).toInt = -120 := by
  have hmin : ¬IsSingle Int64.minValue := by decide
  have hmax : ¬IsSingle Int64.maxValue := by decide
  obtain ⟨⟨first, rest, happend, hencode, -⟩, -, hleast⟩ :=
    lengths_agree Writer.isBigEndian_strict [0x07] Int64.minValue
  obtain ⟨-, -, hgreatest⟩ := lengths_agree Writer.isBigEndian_strict [0x07] Int64.maxValue
  obtain ⟨-, -, -, -, -, -, hleast⟩ := hleast hmin
  obtain ⟨-, -, -, -, -, -, hgreatest⟩ := hgreatest hmax
  refine ⟨Writer.isBigEndian_strict, hmin, hmax, ?_, hleast.trans ?_, hgreatest.trans ?_⟩
  · rw [happend, ← hencode]
    decide
  · decide
  · decide

end PolicyTree.Varint
