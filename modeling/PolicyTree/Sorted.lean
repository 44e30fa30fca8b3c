/-!
# Entries in the order of their keys

Entries, each a value under a key, are kept in a list, in an order of the keys and with one entry under a key.

* `place`: puts a value under a key, in the key's place. `pairwise_place`: the entries stay in order.
* `IdMap`: **a map from ids**, whose entries stand by increasing id.
* `IdSet`: a set of ids.
-/

namespace PolicyTree

/-- Puts a value under a key: in the place of what is under the key, or else before the first greater key. -/
def place {κ α : Type} [DecidableEq κ] (before : κ → κ → Prop) [DecidableRel before] (key : κ) (x : α) :
    List (κ × α) → List (κ × α)
  | [] => [(key, x)]
  | entry :: rest =>
    if entry.1 = key then (key, x) :: rest
    else if before key entry.1 then (key, x) :: entry :: rest
    else entry :: place before key x rest

section

variable {κ α : Type} [DecidableEq κ] {before : κ → κ → Prop} [DecidableRel before] {key other : κ} {x : α}

theorem mem_keys_place : ∀ {l : List (κ × α)},
    other ∈ (place before key x l).map (·.1) → other = key ∨ other ∈ l.map (·.1) := by
  intro l
  induction l with
  | nil => intro h; simpa [place] using h
  | cons entry l ih =>
    unfold place
    split
    · intro h; exact (List.mem_cons.1 h).imp_right (List.mem_cons_of_mem _)
    · split
      · intro h; exact List.mem_cons.1 h
      · intro h
        rcases List.mem_cons.1 h with h | h
        · exact Or.inr (h ▸ List.mem_cons_self)
        · exact (ih h).imp_right (List.mem_cons_of_mem _)

variable (before) in
/-- **Placing keeps the order of the keys.** -/
theorem pairwise_place (htrans : ∀ {a b c}, before a b → before b c → before a c)
    (htotal : ∀ {a b}, ¬before a b → a ≠ b → before b a) (key : κ) (x : α) : ∀ l : List (κ × α),
    (l.map (·.1)).Pairwise before → ((place before key x l).map (·.1)).Pairwise before := by
  intro l
  induction l with
  | nil => intro _; exact List.pairwise_singleton _ _
  | cons entry l ih =>
    intro h
    have h' := List.pairwise_cons.1 h
    unfold place
    split
    · rename_i he; subst he; exact h
    · rename_i he
      split
      · rename_i hb
        refine List.pairwise_cons.2 ⟨fun other hm => ?_, h⟩
        rcases List.mem_cons.1 hm with rfl | hm
        · exact hb
        · exact htrans hb (h'.1 other hm)
      · rename_i hb
        refine List.pairwise_cons.2 ⟨fun other hm => ?_, ih h'.2⟩
        rcases mem_keys_place hm with rfl | hm
        · exact htotal hb (Ne.symm he)
        · exact h'.1 other hm

end

/-- **A map from ids.** Its entries stand by increasing id, so there is one under an id at most. -/
structure IdMap (α : Type) where
  toList : List (UInt8 × α)
  increasing : (toList.map (·.1)).Pairwise (· < ·)
  deriving DecidableEq, Repr

namespace IdMap

variable {α : Type}

/-- The map of nothing. -/
def empty : IdMap α := ⟨[], .nil⟩

/-- The value under an id. -/
def find? (m : IdMap α) (id : UInt8) : Option α := (m.toList.find? (·.1 == id)).map (·.2)

/-- There is a value under the id. -/
def contains (m : IdMap α) (id : UInt8) : Bool := (m.find? id).isSome

/-- The ids, in increasing order. -/
def ids (m : IdMap α) : List UInt8 := m.toList.map (·.1)

/-- The values, by increasing id. -/
def values (m : IdMap α) : List α := m.toList.map (·.2)

/-- Puts a value under an id, in place of what is there. -/
def insert (m : IdMap α) (id : UInt8) (x : α) : IdMap α where
  toList := place (· < ·) id x m.toList
  increasing :=
    have htotal {a b : UInt8} (h : ¬a < b) (hne : a ≠ b) : b < a := UInt8.lt_of_le_of_ne (UInt8.not_lt.1 h) hne.symm
    pairwise_place (· < ·) UInt8.lt_trans htotal id x m.toList m.increasing

/-- Takes away what is under an id. -/
def erase (m : IdMap α) (id : UInt8) : IdMap α where
  toList := m.toList.filter (·.1 ≠ id)
  increasing := m.increasing.sublist (List.filter_sublist.map _)

/-- The map of some entries; of two under one id the later counts. -/
def ofList (entries : List (UInt8 × α)) : IdMap α := entries.foldl (fun m entry => m.insert entry.1 entry.2) empty

end IdMap

/-- **A set of ids**: a map to nothing. -/
abbrev IdSet := IdMap Unit

end PolicyTree
