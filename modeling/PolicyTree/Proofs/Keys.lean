import Mathlib.Data.List.Nodup

/-!
# Lists with distinct keys

* `find?_key_eq_some_iff`: where no key occurs twice, **what is found under a key is the one member that has
  it**.
-/

namespace PolicyTree

variable {α β : Type} [BEq β] [LawfulBEq β] {key : α → β} {l : List α} {k : β} {x : α}

/-- **What is found under a key is the one member that has it.** -/
theorem find?_key_eq_some_iff (h : (l.map key).Nodup) :
    l.find? (key · == k) = some x ↔ x ∈ l ∧ key x = k := by
  constructor
  · intro hf
    exact ⟨List.mem_of_find?_eq_some hf, by simpa using List.find?_some hf⟩
  · rintro ⟨hx, rfl⟩
    obtain ⟨y, hy⟩ : ∃ y, l.find? (key · == key x) = some y :=
      Option.isSome_iff_exists.1 (List.find?_isSome.2 ⟨x, hx, by simp⟩)
    -- another member with the key would be the same one
    have hkey : key y = key x := by simpa using List.find?_some hy
    rw [hy, List.inj_on_of_nodup_map h (List.mem_of_find?_eq_some hy) hx hkey]

end PolicyTree
