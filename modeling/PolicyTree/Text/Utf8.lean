/-!
# Text as UTF-8 bytes

* `utf8`: the bytes of a text.
* `ofUtf8?`: the text that has given bytes; `none` if no text has.
-/

namespace PolicyTree.Text

/-- The UTF-8 bytes of a text. -/
def utf8 (s : String) : List UInt8 := s.toUTF8.data.toList

/-- The text whose UTF-8 bytes are given. -/
def ofUtf8? (bytes : List UInt8) : Option String := String.fromUTF8? ⟨bytes.toArray⟩

theorem utf8_injective {s t : String} (h : utf8 s = utf8 t) : s = t := by
  simp only [utf8, String.toUTF8_eq_toByteArray] at h
  exact String.toByteArray_inj.1 (ByteArray.ext (Array.toList_inj.1 h))

/-- **Reading accepts exactly the bytes of a text.** -/
theorem ofUtf8?_eq_some_iff {bytes : List UInt8} {s : String} :
    ofUtf8? bytes = some s ↔ utf8 s = bytes := by
  constructor
  · intro h
    unfold ofUtf8? String.fromUTF8? at h
    split at h
    · cases h; rfl
    · cases h
  · rintro rfl
    have hv : (⟨(utf8 s).toArray⟩ : ByteArray) = s.toByteArray := by simp [utf8]
    unfold ofUtf8? String.fromUTF8?
    rw [hv, dif_pos s.isValidUTF8]
    rfl

end PolicyTree.Text
