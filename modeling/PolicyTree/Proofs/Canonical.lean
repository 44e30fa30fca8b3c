import Mathlib.Data.List.Induction
import PolicyTree.Proofs.Codec

/-!
# One written form

Reading accepts exactly what writing produces, so a number and a name have one written form each.

* `Varint.take_of_decode`: the bytes that a number is read from are the ones that are written for it.
* `Varint.decode_exact`: **a number is read exactly if its bytes stand at the start**; all other bytes
  are corrupt.
* `PolicyName.decode_bijective`: **a value is read as a name exactly if it is written for it**; all other
  values are corrupt, and no value starts with another.
-/

namespace PolicyTree

/-- A reader that knows one kind of error fails on exactly what it does not read. -/
theorem fails_iff {α : Type} {kind : ErrorKind} {x : Except Error α}
    (h : ∀ {e}, x = .error e → e.kind = kind) :
    (∃ e, x = .error e ∧ e.kind = kind) ↔ ∀ a, x ≠ .ok a := by
  cases x with
  | error e => exact ⟨fun _ _ => nofun, fun _ => ⟨e, rfl, h rfl⟩⟩
  | ok a => exact ⟨nofun, fun hno => absurd rfl (hno a)⟩

namespace Varint

variable {bytes : List UInt8} {b : UInt8} {v w : Int64} {n m : Nat} {e : Error}

/-! ## Payloads and signs -/

theorem ofBigEndian_concat (bytes : List UInt8) (b : UInt8) :
    ofBigEndian (bytes ++ [b]) = ofBigEndian bytes * 256 + b.toNat := by
  unfold ofBigEndian
  rw [List.foldl_append]
  rfl

/-- A payload is written for the magnitude that it is read as. -/
theorem bigEndian_ofBigEndian (bytes : List UInt8) :
    bigEndian bytes.length (ofBigEndian bytes) = bytes := by
  induction bytes using List.reverseRecOn with
  | nil => rfl
  | append_singleton bytes b ih =>
    -- the last byte is the remainder, the bytes before it are the quotient's
    have hb := b.toNat_lt
    have hdiv : (ofBigEndian bytes * 256 + b.toNat) / 256 = ofBigEndian bytes := by omega
    have hmod : UInt8.ofNat (ofBigEndian bytes * 256 + b.toNat) = b := by
      apply UInt8.toNat_inj.1
      rw [UInt8.toNat_ofNat']
      omega
    rw [List.length_append, List.length_singleton, ofBigEndian_concat, bigEndian, hdiv, ih, hmod]

theorem toInt_ofMagnitude (negative : Bool) (h : m < 2 ^ 63) :
    (ofMagnitude negative m).toInt = if negative then -1 - (m : Int) else m := by
  have hm : (Int64.ofNat m).toInt = m := Int64.toInt_ofNat_of_lt h
  unfold ofMagnitude
  cases negative with
  | false => exact hm
  | true =>
    rw [if_pos rfl, if_pos rfl, Int64.toInt_not, hm, Int.bmod_eq_of_le (by omega) (by omega)]
    omega

/-- **A number has the sign and the magnitude that it is made from.** -/
theorem sign_magnitude_ofMagnitude (negative : Bool) (h : m < 2 ^ 63) :
    decide (ofMagnitude negative m < 0) = negative ∧ magnitude (ofMagnitude negative m) = m := by
  have hv := toInt_ofMagnitude negative h
  have hm := magnitude_eq (ofMagnitude negative m)
  cases negative with
  | false =>
    have hneg : ¬ofMagnitude false m < 0 := by
      rw [Int64.lt_iff_toInt_lt, hv, Int64.toInt_zero]; simp
    rw [if_neg hneg, hv] at hm
    exact ⟨decide_eq_false hneg, Int.ofNat_inj.1 hm⟩
  | true =>
    have hneg : ofMagnitude true m < 0 := by
      rw [Int64.lt_iff_toInt_lt, hv, Int64.toInt_zero, if_pos rfl]; omega
    rw [if_pos hneg, hv, if_pos rfl] at hm
    exact ⟨decide_eq_true hneg, by omega⟩

/-! ## First bytes -/

theorem firstByte_ofNat : ∀ i < 256, sizeOfFirst (UInt8.ofNat i).toInt8 ≠ 1 →
    firstByte (isNegativeFirst (UInt8.ofNat i).toInt8) (sizeOfFirst (UInt8.ofNat i).toInt8 - 1) =
      (UInt8.ofNat i).toInt8 := by decide +kernel

/-- A first byte that is no number itself is written for the sign and the length that it tells. -/
theorem firstByte_of_first (h : sizeOfFirst b.toInt8 ≠ 1) :
    firstByte (isNegativeFirst b.toInt8) (sizeOfFirst b.toInt8 - 1) = b.toInt8 := by
  have hb := firstByte_ofNat b.toNat b.toNat_lt
  rw [UInt8.ofNat_toNat] at hb
  exact hb h

/-- A first byte is a number itself, or tells of more bytes. -/
theorem sizeOfFirst_cases (first : Int8) :
    (sizeOfFirst first = 1 ∧ -112 ≤ first.toInt) ∨ 2 ≤ sizeOfFirst first := by
  unfold sizeOfFirst
  by_cases hle : -112 ≤ first
  · rw [if_pos hle]
    exact Or.inl ⟨rfl, by simpa using Int8.le_iff_toInt_le.1 hle⟩
  · have hlt : first.toInt < -112 := by
      rw [Int8.le_iff_toInt_le] at hle
      simpa using hle
    rw [if_neg hle]
    right
    by_cases hbase : first < -120
    · have hbase' : first.toInt < -120 := by simpa using Int8.lt_iff_toInt_lt.1 hbase
      rw [if_pos hbase]
      omega
    · rw [if_neg hbase]
      omega

/-- A byte that is a number itself is written for that number. -/
theorem encode_of_single (h : sizeOfFirst b.toInt8 = 1) : encode b.toInt8.toInt64 = [b] := by
  have hlo : -112 ≤ b.toInt8.toInt := by
    rcases sizeOfFirst_cases b.toInt8 with ⟨-, hlo⟩ | hmore
    · exact hlo
    · omega
  have hhi := b.toInt8.toInt_lt
  have hsingle : IsSingle b.toInt8.toInt64 := by
    refine ⟨Int64.le_iff_toInt_le.2 ?_, Int64.le_iff_toInt_le.2 ?_⟩
    · rw [Int8.toInt_toInt64]; exact hlo
    · rw [Int8.toInt_toInt64]; exact Int.lt_add_one_iff.1 hhi
  unfold encode
  rw [if_pos hsingle, Int8.toInt8_toInt64, UInt8.toUInt8_toInt8]

/-- A first byte and a payload of its length are written for the number that they make, if that number
takes no fewer bytes. -/
theorem encode_of_payload {payload : List UInt8} (hfirst : sizeOfFirst b.toInt8 ≠ 1)
    (hp : payload.length = sizeOfFirst b.toInt8 - 1) (hm : ofBigEndian payload < 2 ^ 63)
    (hsize : size (ofMagnitude (isNegativeFirst b.toInt8) (ofBigEndian payload)) = sizeOfFirst b.toInt8) :
    encode (ofMagnitude (isNegativeFirst b.toInt8) (ofBigEndian payload)) = b :: payload := by
  obtain ⟨hsign, hmag⟩ := sign_magnitude_ofMagnitude (isNegativeFirst b.toInt8) hm
  generalize ofMagnitude (isNegativeFirst b.toInt8) (ofBigEndian payload) = v at hsign hmag hsize
  have hsingle : ¬IsSingle v := fun h => hfirst (by rw [← hsize, size, if_pos h])
  have hlength : payloadLength (magnitude v) = payload.length := by
    rw [size, if_neg hsingle] at hsize
    omega
  unfold encode
  rw [if_neg hsingle]
  simp only [hlength, hsign]
  rw [hmag, bigEndian_ofBigEndian, hp, firstByte_of_first hfirst, UInt8.toUInt8_toInt8]

/-! ## What is read -/

/-- **The bytes that a number is read from are the ones that are written for it.** -/
theorem take_of_decode (h : decode bytes = .ok (v, n)) : n ≤ bytes.length ∧ bytes.take n = encode v := by
  cases bytes with
  | nil => cases h
  | cons b rest =>
    simp only [decode] at h
    split at h
    · rename_i hfirst
      cases h
      exact ⟨by simp, (encode_of_single hfirst).symm⟩
    · rename_i hfirst
      split at h
      · cases h
      · rename_i hlong
        split at h
        · rename_i hread
          cases h
          have hp : (rest.take (sizeOfFirst b.toInt8 - 1)).length = sizeOfFirst b.toInt8 - 1 := by
            rw [List.length_take]; omega
          have hpos : sizeOfFirst b.toInt8 = sizeOfFirst b.toInt8 - 1 + 1 := by
            have := sizeOfFirst_cases b.toInt8
            omega
          refine ⟨by rw [List.length_cons]; omega, ?_⟩
          rw [encode_of_payload hfirst hp hread.1 hread.2, ← List.take_succ_cons, ← hpos]
        · cases h

/-- **A number is read exactly if its bytes stand at the start.** -/
theorem decode_eq_ok_iff : decode bytes = .ok (v, n) ↔ n ≤ bytes.length ∧ bytes.take n = encode v := by
  refine ⟨take_of_decode, ?_⟩
  rintro ⟨hn, htake⟩
  have hsize : size v = n := by rw [← length_encode, ← htake, List.length_take, Nat.min_eq_left hn]
  have hread := decode_encode v (bytes.drop n)
  rwa [← htake, List.take_append_drop, hsize] at hread

/-- What follows a number does not matter. -/
theorem decode_of_take {bytes' : List UInt8} (h : decode bytes = .ok (v, n))
    (htake : bytes'.take n = bytes.take n) : decode bytes' = .ok (v, n) := by
  obtain ⟨hn, hv⟩ := take_of_decode h
  have hlen : (bytes'.take n).length = n := by rw [htake, List.length_take, Nat.min_eq_left hn]
  rw [List.length_take] at hlen
  exact decode_eq_ok_iff.2 ⟨by omega, by rw [htake, hv]⟩

/-- **No number's bytes start with another's.** -/
theorem encode_append_inj {r r' : List UInt8} (h : encode v ++ r = encode w ++ r') : v = w ∧ r = r' := by
  have hread := decode_encode v r
  rw [h, decode_encode, Except.ok.injEq, Prod.mk.injEq] at hread
  obtain rfl := hread.1
  exact ⟨rfl, List.append_cancel_left h⟩

theorem kind_of_decode_error (h : decode bytes = .error e) : e.kind = .corruptAttribute := by
  cases bytes with
  | nil => cases h; rfl
  | cons b rest =>
    simp only [decode] at h
    split at h
    · cases h
    · split at h
      · cases h; rfl
      · split at h
        · cases h
        · cases h; rfl

/-! ## Numbers within 32 bits -/

/-- A number lies within 32 bits. -/
def IsShort (v : Int64) : Prop := -2 ^ 31 ≤ v.toInt ∧ v.toInt < 2 ^ 31

instance (v : Int64) : Decidable (IsShort v) := inferInstanceAs (Decidable (_ ∧ _))

theorem isShort_toInt64 (w : Int32) : IsShort w.toInt64 := by
  unfold IsShort
  rw [Int32.toInt_toInt64]
  exact ⟨w.le_toInt, w.toInt_lt⟩

theorem toInt64_toInt32 (h : IsShort v) : v.toInt32.toInt64 = v := by
  obtain ⟨hlo, hhi⟩ := h
  apply Int64.toInt_inj.1
  rw [Int32.toInt_toInt64, Int64.toInt_toInt32, Int.bmod_eq_of_le (by omega) (by omega)]

/-- The short reader reads a number and looks whether it is short. -/
theorem decodeShort_eq (bytes : List UInt8) : decodeShort bytes = match decode bytes with
    | .error e => .error e
    | .ok (v, n) => if IsShort v then .ok (v.toInt32, n) else .error (.corrupt .wideInteger) := by
  have hmin : Int32.minValue.toInt = -2 ^ 31 := by decide
  have hmax : Int32.maxValue.toInt = 2 ^ 31 - 1 := by decide
  unfold decodeShort
  cases decode bytes with
  | error e => rfl
  | ok r =>
    obtain ⟨v, n⟩ := r
    have hshort : Int32.minValue.toInt ≤ v.toInt ∧ v.toInt ≤ Int32.maxValue.toInt ↔ IsShort v := by
      unfold IsShort; omega
    simp only [bind, Except.bind, hshort]
    rfl

/-- **The short reader reads the numbers within 32 bits.** -/
theorem decodeShort_eq_ok_iff {w : Int32} :
    decodeShort bytes = .ok (w, n) ↔ decode bytes = .ok (w.toInt64, n) := by
  rw [decodeShort_eq]
  cases decode bytes with
  | error e => exact ⟨nofun, nofun⟩
  | ok r =>
    obtain ⟨v, m⟩ := r
    simp only
    by_cases hv : IsShort v
    · rw [if_pos hv, Except.ok.injEq, Except.ok.injEq, Prod.mk.injEq, Prod.mk.injEq]
      refine and_congr_left fun _ => ⟨?_, ?_⟩
      · rintro rfl; exact (toInt64_toInt32 hv).symm
      · rintro rfl; simp
    · rw [if_neg hv]
      refine ⟨nofun, fun h => ?_⟩
      cases h
      exact absurd (isShort_toInt64 w) hv

theorem kind_of_decodeShort_error (h : decodeShort bytes = .error e) : e.kind = .corruptAttribute := by
  rw [decodeShort_eq] at h
  cases hread : decode bytes with
  | error e' => rw [hread] at h; cases h; exact kind_of_decode_error hread
  | ok r =>
    rw [hread] at h
    simp only at h
    split at h
    · cases h
    · cases h; rfl

/-- **The reader accepts exactly what the writer produces.** A number is read from the start of some bytes
exactly if its own bytes stand there; what follows does not matter, and all other bytes are corrupt. The
short reader reads the same numbers, as far as they lie within 32 bits, and all else is corrupt to it. -/
theorem decode_exact (bytes : List UInt8) :
    (∀ v n, decode bytes = .ok (v, n) ↔ n ≤ bytes.length ∧ bytes.take n = encode v) ∧
      (∀ v n bytes', bytes'.take n = bytes.take n →
        (decode bytes' = .ok (v, n) ↔ decode bytes = .ok (v, n))) ∧
      ((∃ e, decode bytes = .error e ∧ e.kind = .corruptAttribute) ↔
        ¬∃ v n, n ≤ bytes.length ∧ bytes.take n = encode v) ∧
      (∀ v n, (∃ w : Int32, w.toInt64 = v ∧ decodeShort bytes = .ok (w, n)) ↔
        decode bytes = .ok (v, n) ∧ -2 ^ 31 ≤ v.toInt ∧ v.toInt < 2 ^ 31) ∧
      ((∃ e, decodeShort bytes = .error e ∧ e.kind = .corruptAttribute) ↔
        ¬∃ v n, decode bytes = .ok (v, n) ∧ -2 ^ 31 ≤ v.toInt ∧ v.toInt < 2 ^ 31) := by
  have hshort : ∀ v n, (∃ w : Int32, w.toInt64 = v ∧ decodeShort bytes = .ok (w, n)) ↔
      decode bytes = .ok (v, n) ∧ IsShort v := by
    intro v n
    constructor
    · rintro ⟨w, rfl, h⟩
      exact ⟨decodeShort_eq_ok_iff.1 h, isShort_toInt64 w⟩
    · rintro ⟨h, hv⟩
      exact ⟨v.toInt32, toInt64_toInt32 hv, decodeShort_eq_ok_iff.2 (by rwa [toInt64_toInt32 hv])⟩
  refine ⟨fun v n => decode_eq_ok_iff, ?_, ?_, hshort, ?_⟩
  · intro v n bytes' htake
    exact ⟨fun h => decode_of_take h htake.symm, fun h => decode_of_take h htake⟩
  · rw [fails_iff kind_of_decode_error]
    constructor
    · rintro h ⟨v, n, hv⟩; exact h (v, n) (decode_eq_ok_iff.2 hv)
    · intro h r hr; exact h ⟨r.1, r.2, decode_eq_ok_iff.1 hr⟩
  · rw [fails_iff kind_of_decodeShort_error]
    constructor
    · rintro h ⟨v, n, hv⟩
      obtain ⟨w, -, hw⟩ := (hshort v n).2 hv
      exact h (w, n) hw
    · intro h r hr; exact h ⟨r.1.toInt64, r.2, (hshort _ _).1 ⟨r.1, rfl, hr⟩⟩

/-- Three hundred is read whatever follows it. No number stands where there are no bytes or too few, where
a zero leads, where one byte would do, and where the payload is beyond the sign that the first byte tells. -/
theorem decode_exact_three_hundred :
    decode [0x8e, 0x01, 0x2c] = .ok (300, 3) ∧ decode [0x8e, 0x01, 0x2c, 0x07] = .ok (300, 3) ∧
      ∀ bytes ∈ [[], [0x8e, 0x01], [0x8d, 0x00, 0x01, 0x2c], [0x8f, 0x03],
          [0x88, 0x80, 0x00, 0x00, 0x00, 0x00, 0x00, 0x00, 0x00]],
        ¬∃ v n, n ≤ bytes.length ∧ bytes.take n = encode v := by
  have h : decode [0x8e, 0x01, 0x2c] = .ok (300, 3) := by decide
  refine ⟨h, ((decode_exact [0x8e, 0x01, 0x2c]).2.1 300 3 [0x8e, 0x01, 0x2c, 0x07] rfl).2 h, ?_⟩
  intro bytes hbytes
  apply (decode_exact bytes).2.2.1.1
  simp only [List.mem_cons, List.not_mem_nil, or_false] at hbytes
  rcases hbytes with rfl | rfl | rfl | rfl | rfl <;> exact ⟨_, by rfl, by rfl⟩

end Varint

namespace PolicyName

variable {value : List UInt8} {name other : String} {e : Error}

/-! ## Names -/

/-- What a value consists of that is read as a name. -/
theorem parts_of_decode (h : decode value = .ok name) : ∃ length size,
    Varint.decodeShort value = .ok (length, size) ∧ 0 ≤ length.toInt ∧
      (value.drop size).length = length.toInt.toNat ∧ Text.utf8 name = value.drop size := by
  unfold decode at h
  cases hr : Varint.decodeShort value with
  | error e => rw [hr] at h; cases h
  | ok r =>
    obtain ⟨length, size⟩ := r
    rw [hr] at h
    simp only [bind, Except.bind, throw, throwThe, MonadExceptOf.throw] at h
    split at h
    · cases h
    · rename_i hneg
      split at h
      · cases h
      · split at h
        · cases h
        · split at h
          · rename_i text htext
            cases h
            refine ⟨length, size, rfl, ?_, by omega, Text.ofUtf8?_eq_some_iff.1 htext⟩
            rw [Int32.lt_iff_toInt_lt, Int32.toInt_zero] at hneg
            omega
          · cases h

theorem kind_of_decode_error (h : decode value = .error e) : e.kind = .corruptAttribute := by
  unfold decode at h
  cases hr : Varint.decodeShort value with
  | error e' => rw [hr] at h; cases h; exact Varint.kind_of_decodeShort_error hr
  | ok r =>
    rw [hr] at h
    simp only [bind, Except.bind, throw, throwThe, MonadExceptOf.throw] at h
    -- each test that stops the reader names a fault of the bytes
    split at h
    · cases h; rfl
    · split at h
      · cases h; rfl
      · split at h
        · cases h; rfl
        · split at h
          · cases h
          · cases h; rfl

/-- **A value that is read as a name is the one that is written for it.** -/
theorem encode_of_decode (h : decode value = .ok name) :
    (Text.utf8 name).length ≤ 2 ^ 31 - 1 ∧ value = encode name := by
  obtain ⟨length, size, hr, hpos, hlen, htext⟩ := parts_of_decode h
  have htake := (Varint.take_of_decode (Varint.decodeShort_eq_ok_iff.1 hr)).2
  have hcount : (Text.utf8 name).length = length.toInt.toNat := by rw [htext, hlen]
  have hlt := length.toInt_lt
  -- the number in front is the count of the bytes behind it
  have hfront : length.toInt64 = Int64.ofNat (Text.utf8 name).length := by
    apply Int64.toInt_inj.1
    rw [Int32.toInt_toInt64, Int64.toInt_ofNat_of_lt (by omega), hcount]
    omega
  refine ⟨by omega, ?_⟩
  calc value = value.take size ++ value.drop size := (List.take_append_drop size value).symm
    _ = Varint.encode (Int64.ofNat (Text.utf8 name).length) ++ Text.utf8 name := by
      rw [htake, hfront, htext]

theorem decode_eq_ok_iff :
    decode value = .ok name ↔ (Text.utf8 name).length ≤ 2 ^ 31 - 1 ∧ value = encode name := by
  refine ⟨encode_of_decode, ?_⟩
  rintro ⟨hlen, rfl⟩
  exact decode_encode (by omega)

/-- **Different names have different values**, however long they are. -/
theorem encode_injective (h : encode name = encode other) : name = other :=
  Text.utf8_injective (Varint.encode_append_inj h).2

/-- **No value starts with another.** -/
theorem eq_of_prefix_encode (hn : (Text.utf8 name).length ≤ 2 ^ 31 - 1)
    (ho : (Text.utf8 other).length ≤ 2 ^ 31 - 1) (h : encode name <+: encode other) : name = other := by
  obtain ⟨rest, hrest⟩ := h
  rw [encode, encode, List.append_assoc] at hrest
  obtain ⟨hfront, hbytes⟩ := Varint.encode_append_inj hrest
  -- the counts in front agree, so nothing is left over
  have hcount : (Text.utf8 name).length = (Text.utf8 other).length := by
    have h := congrArg Int64.toInt hfront
    rw [Int64.toInt_ofNat_of_lt (by omega), Int64.toInt_ofNat_of_lt (by omega)] at h
    exact Int.ofNat_inj.1 h
  have hnil : rest = [] := by
    have h := congrArg List.length hbytes
    rw [List.length_append] at h
    exact List.length_eq_zero_iff.1 (by omega)
  rw [hnil, List.append_nil] at hbytes
  exact Text.utf8_injective hbytes

/-- **Names and the values that are read are in bijection.** A value is read as a name exactly if the name
has less than `2 ^ 31` bytes and the value is the one that is written for it; all other values are corrupt,
among them what is written for a longer name, and whatever starts a value that is read or goes on after it.
The number in front never reaches beyond the value. -/
theorem decode_bijective (value : List UInt8) (name : String) :
    (decode value = .ok name ↔ (Text.utf8 name).length ≤ 2 ^ 31 - 1 ∧ value = encode name) ∧
      ((∃ e, decode value = .error e ∧ e.kind = .corruptAttribute) ↔
        ¬∃ x, (Text.utf8 x).length ≤ 2 ^ 31 - 1 ∧ value = encode x) ∧
      (∀ length size, Varint.decodeShort value = .ok (length, size) → size ≤ value.length) ∧
      (decode (encode name) = .ok name ↔ (Text.utf8 name).length ≤ 2 ^ 31 - 1) ∧
      ((∃ e, decode (encode name) = .error e ∧ e.kind = .corruptAttribute) ↔
        2 ^ 31 - 1 < (Text.utf8 name).length) ∧
      (∀ value', decode value = .ok name → decode value' = .ok name → value' = value) ∧
      ∀ value', decode value = .ok name → (value' <+: value ∨ value <+: value') → value' ≠ value →
        ∃ e, decode value' = .error e ∧ e.kind = .corruptAttribute := by
  refine ⟨decode_eq_ok_iff, ?_, ?_, ?_, ?_, ?_, ?_⟩
  · rw [fails_iff kind_of_decode_error]
    simp only [ne_eq, decode_eq_ok_iff, not_exists]
  · intro length size h
    exact (Varint.take_of_decode (Varint.decodeShort_eq_ok_iff.1 h)).1
  · rw [decode_eq_ok_iff, and_iff_left rfl]
  · rw [fails_iff kind_of_decode_error]
    constructor
    · intro h
      have := h name
      rw [ne_eq, decode_eq_ok_iff, and_iff_left rfl] at this
      omega
    · intro hlong x hx
      obtain ⟨hshort, hsame⟩ := decode_eq_ok_iff.1 hx
      rw [encode_injective hsame] at hlong
      omega
  · intro value' h h'
    rw [(encode_of_decode h).2, (encode_of_decode h').2]
  · intro value' h hstarts hne
    rw [fails_iff kind_of_decode_error]
    intro x hx
    obtain ⟨hn, rfl⟩ := encode_of_decode h
    obtain ⟨ho, rfl⟩ := encode_of_decode hx
    rcases hstarts with hstarts | hstarts
    · exact hne (congrArg encode (eq_of_prefix_encode ho hn hstarts))
    · exact hne (congrArg encode (eq_of_prefix_encode hn ho hstarts).symm)

/-- A name of one letter takes three bytes; two of them are too few, and four are too many. -/
theorem decode_bijective_alpha :
    decode [0x02, 0xce, 0xb1] = .ok "α" ∧ 1 ≤ [(0x02 : UInt8), 0xce, 0xb1].length ∧
      (∃ e, decode [0x02, 0xce] = .error e ∧ e.kind = .corruptAttribute) ∧
      (∃ e, decode [0x02, 0xce, 0xb1, 0x00] = .error e ∧ e.kind = .corruptAttribute) ∧
      ∀ value, decode value = .ok "α" → value = [0x02, 0xce, 0xb1] := by
  have hvalue : [0x02, 0xce, 0xb1] = encode "α" := by decide
  obtain ⟨hread, -, hfront, -, -, hsame, hother⟩ := decode_bijective [0x02, 0xce, 0xb1] "α"
  have h : decode [0x02, 0xce, 0xb1] = .ok "α" := hread.2 ⟨by decide, hvalue⟩
  refine ⟨h, hfront 2 1 (by decide), ?_, ?_, fun value hv => hsame value h hv⟩
  · exact hother [0x02, 0xce] h (Or.inl ⟨[0xb1], rfl⟩) (by decide)
  · exact hother [0x02, 0xce, 0xb1, 0x00] h (Or.inr ⟨[0x00], rfl⟩) (by decide)

end PolicyName

end PolicyTree
