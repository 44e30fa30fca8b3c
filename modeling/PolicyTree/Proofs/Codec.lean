import Mathlib.Algebra.Group.Int.Defs
import Mathlib.Algebra.Group.Nat.Defs
import PolicyTree.PolicyName

/-!
# Reading back what was written

* `Varint.decode_encode`: **the number at the start of some bytes is the one that was written
  there**, whatever follows.
* `PolicyName.decode_encode`: a name of less than `2 ^ 31` bytes is read back from its value.

The magnitude of a number is below `2 ^ 63` and fits its payload (`lt_payload`); the first byte
gives back the sign and the length (`firstByte_spec`).
-/

namespace PolicyTree

namespace Varint

/-! ## Magnitudes -/

theorem magnitude_eq (v : Int64) :
    (magnitude v : Int) = if v < 0 then -1 - v.toInt else v.toInt := by
  have h1 := v.toInt_lt
  have h2 := v.le_toInt
  unfold magnitude
  by_cases h : v < 0
  · have hv : v.toInt < 0 := by simpa using Int64.lt_iff_toInt_lt.1 h
    rw [if_pos h, if_pos h, Int64.toInt_not, Int.bmod_eq_of_le (by omega) (by omega)]
    omega
  · have hv : ¬v.toInt < 0 := fun hn => h (Int64.lt_iff_toInt_lt.2 (by simpa using hn))
    rw [if_neg h, if_neg h]
    omega

theorem magnitude_lt (v : Int64) : magnitude v < 2 ^ 63 := by
  have h := magnitude_eq v
  have h1 := v.toInt_lt
  have h2 := v.le_toInt
  split at h <;> omega

/-- Sign and magnitude determine the number. -/
theorem ofMagnitude_magnitude (v : Int64) : ofMagnitude (v < 0) (magnitude v) = v := by
  have hm := magnitude_eq v
  have hofNat : (Int64.ofNat (magnitude v)).toInt = magnitude v :=
    Int64.toInt_ofNat_of_lt (magnitude_lt v)
  have h1 := v.toInt_lt
  have h2 := v.le_toInt
  unfold ofMagnitude
  apply Int64.toInt_inj.1
  by_cases h : v < 0
  · -- a negative number is the complement of its magnitude
    rw [if_pos h] at hm
    rw [if_pos (by simpa using h), Int64.toInt_not, hofNat, Int.bmod_eq_of_le (by omega) (by omega)]
    omega
  · rw [if_neg h] at hm
    rw [if_neg (by simpa using h), hofNat, hm]

/-! ## Payloads -/

theorem payloadLength_le {m : Nat} (h : m < 2 ^ 63) : payloadLength m ≤ 8 := by
  unfold payloadLength
  rcases Nat.eq_zero_or_pos m with h0 | h0
  · subst h0; decide
  · have := (Nat.log2_lt (by omega)).2 h
    omega

/-- **A magnitude fits its payload.** -/
theorem lt_payload (m : Nat) : m < 256 ^ payloadLength m := by
  have h : m < 2 ^ (m.log2 + 1) := Nat.lt_log2_self
  have hle : m.log2 + 1 ≤ 8 * payloadLength m := by unfold payloadLength; omega
  calc m < 2 ^ (m.log2 + 1) := h
    _ ≤ 2 ^ (8 * payloadLength m) := Nat.pow_le_pow_right (by omega) hle
    _ = 256 ^ payloadLength m := by rw [Nat.pow_mul]

theorem length_bigEndian : ∀ n m : Nat, (bigEndian n m).length = n := by
  intro n
  induction n with
  | zero => intro m; rfl
  | succ n ih => intro m; simp [bigEndian, ih]

theorem ofBigEndian_bigEndian : ∀ n m : Nat, m < 256 ^ n → ofBigEndian (bigEndian n m) = m := by
  intro n
  induction n with
  | zero => intro m h; rw [Nat.pow_zero] at h; simp [bigEndian, ofBigEndian]; omega
  | succ n ih =>
    intro m h
    -- the last byte is the remainder, the bytes before it are the quotient's
    have hdiv : m / 256 < 256 ^ n := by
      rw [Nat.div_lt_iff_lt_mul (by decide)]; rwa [Nat.pow_succ] at h
    have ih := ih (m / 256) hdiv
    unfold ofBigEndian at ih ⊢
    rw [bigEndian, List.foldl_append, ih]
    simp only [List.foldl_cons, List.foldl_nil, UInt8.toNat_ofNat']
    omega

/-! ## First bytes -/

/-- The length and the sign can be read off the first byte. -/
theorem firstByte_spec : ∀ length < 9, 1 ≤ length → ∀ negative : Bool,
    sizeOfFirst (firstByte negative length) = length + 1 ∧
      isNegativeFirst (firstByte negative length) = negative := by decide

theorem toInt8_toInt64 {v : Int64} (h : IsSingle v) : v.toInt8.toInt64 = v := by
  have h1 : -112 ≤ v.toInt := by simpa using Int64.le_iff_toInt_le.1 h.1
  have h2 : v.toInt ≤ 127 := by simpa using Int64.le_iff_toInt_le.1 h.2
  apply Int64.toInt_inj.1
  rw [Int8.toInt_toInt64, Int64.toInt_toInt8, Int.bmod_eq_of_le (by omega) (by omega)]

theorem sizeOfFirst_single {v : Int64} (h : IsSingle v) : sizeOfFirst v.toInt8 = 1 := by
  have h1 : -112 ≤ v.toInt := by simpa using Int64.le_iff_toInt_le.1 h.1
  have h2 : v.toInt ≤ 127 := by simpa using Int64.le_iff_toInt_le.1 h.2
  have hle : -112 ≤ v.toInt8 := by
    rw [Int8.le_iff_toInt_le, Int64.toInt_toInt8, Int.bmod_eq_of_le (by omega) (by omega)]
    exact h1
  unfold sizeOfFirst
  rw [if_pos hle]

/-! ## The round trip -/

theorem length_encode (v : Int64) : (encode v).length = size v := by
  unfold encode size
  split
  · rfl
  · simp only [List.length_cons, length_bigEndian]; omega

/-- **The number at the start of some bytes is the one that was written there.** -/
theorem decode_encode (v : Int64) (rest : List UInt8) :
    decode (encode v ++ rest) = .ok (v, size v) := by
  unfold encode
  by_cases hs : IsSingle v
  · -- the one byte is the number itself
    rw [if_pos hs, size, if_pos hs, List.singleton_append]
    simp only [decode, Int8.toInt8_toUInt8, sizeOfFirst_single hs, if_true, toInt8_toInt64 hs]
  · -- the first byte tells how many bytes the magnitude takes, and they are there
    have hm := magnitude_lt v
    have hlen := payloadLength_le hm
    have hpos : 1 ≤ payloadLength (magnitude v) := by unfold payloadLength; omega
    obtain ⟨hsize, hneg⟩ := firstByte_spec _ (by omega) hpos (v < 0)
    have hsv : size v = payloadLength (magnitude v) + 1 := by rw [size, if_neg hs]; omega
    rw [if_neg hs, List.cons_append]
    unfold decode
    simp only [Int8.toInt8_toUInt8, hsize, hneg, Nat.add_sub_cancel]
    have htake : (bigEndian (payloadLength (magnitude v)) (magnitude v) ++ rest).take
        (payloadLength (magnitude v)) = bigEndian (payloadLength (magnitude v)) (magnitude v) :=
      List.take_left' (length_bigEndian _ _)
    rw [if_neg (by omega), if_neg (by simp [length_bigEndian]), htake,
      ofBigEndian_bigEndian _ _ (lt_payload _), ofMagnitude_magnitude, if_pos ⟨hm, hsv⟩, hsv]

/-- A number within 32 bits is read back as such. -/
theorem decodeShort_encode {v : Int64} (hlo : -2 ^ 31 ≤ v.toInt) (hhi : v.toInt < 2 ^ 31)
    (rest : List UInt8) : decodeShort (encode v ++ rest) = .ok (v.toInt32, size v) := by
  have hmin : Int32.minValue.toInt = -2 ^ 31 := by decide
  have hmax : Int32.maxValue.toInt = 2 ^ 31 - 1 := by decide
  unfold decodeShort
  rw [decode_encode]
  simp only [bind, Except.bind]
  rw [if_pos ⟨by omega, by omega⟩]
  rfl

end Varint

namespace PolicyName

/-- **A name of less than `2 ^ 31` bytes is read back from its value.** -/
theorem decode_encode {name : String} (h : (Text.utf8 name).length < 2 ^ 31) :
    decode (encode name) = .ok name := by
  have hv : (Int64.ofNat (Text.utf8 name).length).toInt = (Text.utf8 name).length :=
    Int64.toInt_ofNat_of_lt (by omega)
  have h32 : (Int64.ofNat (Text.utf8 name).length).toInt32.toInt = (Text.utf8 name).length := by
    rw [Int64.toInt_toInt32, hv, Int.bmod_eq_of_le (by omega) (by omega)]
  have hneg : ¬(Int64.ofNat (Text.utf8 name).length).toInt32 < 0 := by
    rw [Int32.lt_iff_toInt_lt, h32, Int32.toInt_zero]; omega
  have htext : Text.ofUtf8? (Text.utf8 name) = some name := Text.ofUtf8?_eq_some_iff.2 rfl
  unfold decode encode
  -- what follows the length is the name and nothing else
  simp only [Varint.decodeShort_encode (v := Int64.ofNat (Text.utf8 name).length) (by omega) (by omega),
    bind, Except.bind]
  rw [← Varint.length_encode, List.drop_left]
  simp only [if_neg hneg, h32, Int.toNat_natCast, Nat.lt_irrefl, if_false, htext]
  rfl

theorem ofAttribute_toAttribute {name : String} (h : (Text.utf8 name).length < 2 ^ 31) :
    ofAttribute (toAttribute name) = .ok name := by
  unfold ofAttribute toAttribute
  rw [if_pos rfl, decode_encode h]

end PolicyName

end PolicyTree
