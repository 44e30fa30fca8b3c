import PolicyTree.Proofs.Keys
import PolicyTree.Sorted

/-!
# Laws of maps with ordered keys

* `find?_place`: **a look-up after a value has been placed**, in any order of the keys.
* `exists_place`: **a free key gets a place of its own**, and all other entries stay in order.
* `eq_of_increasing`: lists in increasing order of a key are the same if they have the same members.
* `IdMap.find?_eq_some_iff`, `IdMap.ext_find?`: a map from ids is its entries, and **its look-ups determine it.**
* `IdMap.find?_insert`, `IdMap.find?_erase`: the look-ups after a change.
* `IdMap.mem_ids_insert`, `IdMap.mem_ids_erase`: the ids after a change.
-/

namespace PolicyTree

variable {α : Type}

section

variable {κ : Type} [DecidableEq κ] (before : κ → κ → Prop) [DecidableRel before] (key other : κ) (x : α)

/-- **A look-up after a value has been placed.** -/
theorem find?_place : ∀ l : List (κ × α),
    ((place before key x l).find? (·.1 == other)).map (·.2) =
      if key = other then some x else (l.find? (·.1 == other)).map (·.2) := by
  intro l
  by_cases h : key = other
  · rw [if_pos h]
    induction l with
    | nil => rw [place, List.find?_cons_of_pos (by simpa using h), Option.map_some]
    | cons entry l ih =>
      unfold place
      split
      · rw [List.find?_cons_of_pos (by simpa using h), Option.map_some]
      · rename_i he
        split
        · rw [List.find?_cons_of_pos (by simpa using h), Option.map_some]
        · rw [List.find?_cons_of_neg (by simpa [← h] using he), ih]
  · -- the new entry is passed over, wherever it stands
    rw [if_neg h]
    induction l with
    | nil => rw [place, List.find?_cons_of_neg (by simpa using h)]
    | cons entry l ih =>
      unfold place
      split
      · rename_i he
        rw [List.find?_cons_of_neg (by simpa using h), List.find?_cons_of_neg (by simpa [he] using h)]
      · split
        · rw [List.find?_cons_of_neg (by simpa using h)]
        · by_cases he : entry.1 = other
          · rw [List.find?_cons_of_pos (by simpa using he), List.find?_cons_of_pos (by simpa using he)]
          · rw [List.find?_cons_of_neg (by simpa using he), ih, List.find?_cons_of_neg (by simpa using he)]

/-- **A free key gets a place of its own**, and all other entries stay in order. -/
theorem exists_place : ∀ l : List (κ × α), (∀ entry ∈ l, entry.1 ≠ key) →
    ∃ front back, l = front ++ back ∧ place before key x l = front ++ (key, x) :: back := by
  intro l
  induction l with
  | nil => intro _; exact ⟨[], [], rfl, rfl⟩
  | cons entry l ih =>
    intro hfree
    have hne : entry.1 ≠ key := hfree entry List.mem_cons_self
    unfold place
    rw [if_neg hne]
    by_cases hbefore : before key entry.1
    · exact ⟨[], entry :: l, rfl, by rw [if_pos hbefore]; rfl⟩
    · obtain ⟨front, back, rfl, hplace⟩ := ih fun e he => hfree e (List.mem_cons_of_mem _ he)
      exact ⟨entry :: front, back, rfl, by rw [if_neg hbefore, hplace]; rfl⟩

end

/-- **Lists in increasing order of a key are the same if they have the same members.** -/
theorem eq_of_increasing {key : α → UInt8} {l l' : List α} (h : (l.map key).Pairwise (· < ·))
    (h' : (l'.map key).Pairwise (· < ·)) (hmem : ∀ x, x ∈ l ↔ x ∈ l') : l = l' := by
  have hnodup : ∀ {l : List α}, (l.map key).Pairwise (· < ·) → l.Nodup :=
    fun h => (List.nodup_iff_pairwise_ne.2 (h.imp UInt8.ne_of_lt)).of_map
  have hperm : l.Perm l' := (List.perm_ext_iff_of_nodup (hnodup h) (hnodup h')).2 hmem
  have hsorted : l.Pairwise (key · < key ·) := List.pairwise_map.1 h
  have hsorted' : l'.Pairwise (key · < key ·) := List.pairwise_map.1 h'
  have hasymm : ∀ a b, a ∈ l → b ∈ l' → key a < key b → key b < key a → a = b :=
    fun a b _ _ hlt hgt => absurd hgt (UInt8.not_lt.2 (UInt8.le_of_lt hlt))
  exact hperm.eq_of_pairwise hasymm hsorted hsorted'

namespace IdMap

variable {m m' : IdMap α} {id other : UInt8} {x : α}

theorem nodup_ids (m : IdMap α) : m.ids.Nodup := List.nodup_iff_pairwise_ne.2 (m.increasing.imp UInt8.ne_of_lt)

/-- What is found under an id is what stands there. -/
theorem find?_eq_some_iff : m.find? id = some x ↔ (id, x) ∈ m.toList := by
  unfold find?
  rw [Option.map_eq_some_iff]
  constructor
  · rintro ⟨⟨id', x'⟩, hfound, rfl⟩
    obtain ⟨hm, rfl⟩ := (find?_key_eq_some_iff m.nodup_ids).1 hfound
    exact hm
  · intro hm
    exact ⟨(id, x), (find?_key_eq_some_iff m.nodup_ids).2 ⟨hm, rfl⟩, rfl⟩

theorem mem_ids_iff : id ∈ m.ids ↔ ∃ x, m.find? id = some x := by
  simp only [ids, List.mem_map, find?_eq_some_iff]
  constructor
  · rintro ⟨⟨id', x⟩, hm, rfl⟩
    exact ⟨x, hm⟩
  · rintro ⟨x, hm⟩
    exact ⟨_, hm, rfl⟩

theorem contains_iff : m.contains id ↔ id ∈ m.ids := by
  rw [contains, Option.isSome_iff_exists, mem_ids_iff]

theorem contains_eq_decide : m.contains id = decide (id ∈ m.ids) := by
  rw [Bool.eq_iff_iff, contains_iff, decide_eq_true_iff]

theorem mem_values_iff : x ∈ m.values ↔ ∃ id, m.find? id = some x := by
  simp only [values, List.mem_map, find?_eq_some_iff]
  constructor
  · rintro ⟨⟨id, x'⟩, hm, rfl⟩
    exact ⟨id, hm⟩
  · rintro ⟨id, hm⟩
    exact ⟨_, hm, rfl⟩

/-- **Maps in which the same is found are the same.** -/
theorem ext_find? (h : ∀ id, m.find? id = m'.find? id) : m = m' := by
  have hmem : ∀ entry, entry ∈ m.toList ↔ entry ∈ m'.toList := by
    rintro ⟨id, x⟩
    rw [← find?_eq_some_iff, ← find?_eq_some_iff, h]
  have hlist : m.toList = m'.toList := eq_of_increasing m.increasing m'.increasing hmem
  cases m
  cases m'
  simpa using hlist

/-- A set is its ids. -/
theorem ext_ids {s s' : IdSet} (h : ∀ id, id ∈ s.ids ↔ id ∈ s'.ids) : s = s' := by
  refine ext_find? fun id => Option.ext fun u => ?_
  have hone : ∀ t : IdSet, t.find? id = some u ↔ id ∈ t.ids := by
    intro t
    rw [mem_ids_iff]
    exact ⟨fun h => ⟨u, h⟩, fun ⟨_, h⟩ => h⟩
  rw [hone, hone, h]

/-! ## After a change -/

theorem find?_insert (m : IdMap α) (id other : UInt8) (x : α) :
    (m.insert id x).find? other = if id = other then some x else m.find? other :=
  find?_place (· < ·) id other x m.toList

theorem find?_erase (m : IdMap α) (id other : UInt8) :
    (m.erase id).find? other = if id = other then none else m.find? other := by
  refine Option.ext fun x => ?_
  rw [find?_eq_some_iff, erase, List.mem_filter, ← find?_eq_some_iff]
  by_cases h : id = other
  · simp [h]
  · simp [h, Ne.symm h]

theorem mem_ids_insert : other ∈ (m.insert id x).ids ↔ other = id ∨ other ∈ m.ids := by
  rw [mem_ids_iff, mem_ids_iff, find?_insert]
  by_cases h : id = other
  · simp [h]
  · simp [h, Ne.symm h]

theorem mem_ids_erase : other ∈ (m.erase id).ids ↔ other ≠ id ∧ other ∈ m.ids := by
  rw [mem_ids_iff, mem_ids_iff, find?_erase]
  by_cases h : id = other
  · simp [h]
  · simp [h, Ne.symm h]

/-- Under a free id one value comes to the others. -/
theorem perm_values_insert (h : id ∉ m.ids) (x : α) : (m.insert id x).values.Perm (x :: m.values) := by
  have hfree : ∀ entry ∈ m.toList, entry.1 ≠ id :=
    fun entry hm heq => h (List.mem_map.2 ⟨entry, hm, heq⟩)
  obtain ⟨front, back, hlist, hplace⟩ := exists_place (· < ·) id x m.toList hfree
  have hentries : (m.insert id x).toList = front ++ (id, x) :: back := hplace
  rw [values, values, hentries, hlist, List.map_append, List.map_append]
  exact List.perm_middle

end IdMap

end PolicyTree
