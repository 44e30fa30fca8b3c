import Mathlib.Data.Nat.Bitwise
import PolicyTree.Proofs.Attributes

/-!
# The attributes of one node as an ordered map

Whatever has been done to a set of attributes, it is a map from names to values, and it remembers in which order the
names came.

* `SetFlags.Allows`, `SetFlags.check_eq`: what the two meaningful bits of the flags allow; the others do not count
  (`run_masked`).
* `AttributeSet.after`, `run_append`: the set that a sequence of operations leaves; **each answer of a run is that of one
  step from the set before it.**
* `AttributeSet.Writes`, `AttributeSet.TakesOut`: what a write and a removal do to the map and to the order.
* `ordered_map`: **every history keeps the list in step with a map.**
-/

namespace PolicyTree

namespace SetFlags

variable {flags g : SetFlags}

/-- The bit that allows to write a name: the second lowest if the name is taken, the lowest if it is free. -/
def place (taken : Bool) : Nat := if taken then 1 else 0

/-- The flags allow to write a name that is taken or free. -/
def Allows (flags : SetFlags) (taken : Bool) : Prop := flags.bits.toNat.testBit (place taken)

instance (flags : SetFlags) (taken : Bool) : Decidable (flags.Allows taken) := inferInstanceAs (Decidable (_ = _))

/-- The flags with the meaningful bits only. -/
def masked (flags : SetFlags) : SetFlags := ⟨flags.bits &&& 3⟩

/-- To include a flag of one bit is to have that bit. -/
theorem includes_eq_testBit {i : Nat} (hg : g.bits.toNat = 2 ^ i) :
    flags.includes g = flags.bits.toNat.testBit i := by
  have hand : (flags.bits &&& g.bits).toNat = (flags.bits.toNat.testBit i).toNat * 2 ^ i := by
    rw [UInt8.toNat_and, hg, Nat.and_two_pow]
  have hpos : 0 < 2 ^ i := Nat.two_pow_pos i
  rw [includes, Bool.eq_iff_iff, beq_iff_eq, ← UInt8.toNat_inj, hand, hg]
  cases flags.bits.toNat.testBit i
  · simp; omega
  · simp

/-- **The check passes where the flags allow the write**, and tells otherwise why not. -/
theorem check_eq (flags : SetFlags) (taken : Bool) : flags.check taken =
    if flags.Allows taken then .ok () else .error (if taken then .attributeExists else .attributeMissing) := by
  have hreplace : flags.includes replace = flags.bits.toNat.testBit 1 := includes_eq_testBit rfl
  have hcreate : flags.includes create = flags.bits.toNat.testBit 0 := includes_eq_testBit rfl
  cases taken with
  | false => cases hbit : flags.bits.toNat.testBit 0 <;> simp [check, Allows, place, hcreate, hbit]
  | true => cases hbit : flags.bits.toNat.testBit 1 <;> simp [check, Allows, place, hreplace, hbit]

theorem allows_masked (flags : SetFlags) (taken : Bool) : flags.masked.Allows taken ↔ flags.Allows taken := by
  have hmask : (3 : UInt8).toNat.testBit (place taken) = true := by cases taken <;> decide
  unfold Allows masked
  rw [UInt8.toNat_and, Nat.testBit_and, Bool.and_eq_true]
  exact and_iff_left hmask

end SetFlags

namespace AttributeSet

variable {s s' : AttributeSet} {a : Attribute} {flags : SetFlags} {name : String}

/-! ## One operation -/

/-- **What a write does**: its name is found with the new value and every other name as before; the new attribute
stands in the place of the old one of its name, or at the end if there was none. -/
structure Writes (s : AttributeSet) (a : Attribute) (s' : AttributeSet) : Prop where
  found : s'.find? a.name = some a
  others : ∀ name, name ≠ a.name → s'.find? name = s.find? name
  order : (∃ before b after, s.toList = before ++ b :: after ∧ b.name = a.name ∧ s'.toList = before ++ a :: after) ∨
    s.find? a.name = none ∧ s'.toList = s.toList ++ [a]

/-- **What a removal does**: its name is not found any more and every other name as before; the other attributes stay
in their order. -/
structure TakesOut (s : AttributeSet) (name : String) (s' : AttributeSet) : Prop where
  gone : s'.find? name = none
  others : ∀ other, other ≠ name → s'.find? other = s.find? other
  order : s'.toList = s.toList.filter (·.name ≠ name)

theorem set_eq (s : AttributeSet) (a : Attribute) (flags : SetFlags) : s.set a flags =
    if flags.Allows (s.find? a.name).isSome then .ok (s.put a)
    else .error (if (s.find? a.name).isSome then .attributeExists else .attributeMissing) := by
  unfold set
  rw [flags.check_eq]
  split <;> rfl

theorem set_masked (s : AttributeSet) (a : Attribute) (flags : SetFlags) : s.set a flags.masked = s.set a flags := by
  simp only [set_eq, flags.allows_masked]

namespace Distinct

theorem writes_put (h : s.Distinct) (a : Attribute) : s.Writes a (s.put a) where
  found := by rw [find?_put, if_pos rfl]
  others name hname := by rw [find?_put, if_neg hname.symm]
  order := by
    cases hfound : s.find? a.name with
    | none =>
      have hput : s.put a = ⟨s.toList ++ [a]⟩ := put_of_absent (find?_eq_none_iff.1 hfound)
      exact Or.inr ⟨rfl, by rw [hput]⟩
    | some b =>
      obtain ⟨before, after, hs⟩ := List.append_of_mem (List.mem_of_find?_eq_some hfound)
      have hname : b.name = a.name := name_of_find? hfound
      have hput : s.put a = ⟨before ++ a :: after⟩ := h.put_of_split hs hname
      exact Or.inl ⟨before, b, after, hs, hname, by rw [hput]⟩

theorem takesOut_erase (h : s.Distinct) (name : String) : s.TakesOut name (s.erase name) where
  gone := by rw [h.find?_erase, if_pos rfl]
  others other hother := by rw [h.find?_erase, if_neg hother.symm]
  order := h.erase_toList name

/-- **No operation brings in a name for the second time.** -/
theorem step (h : s.Distinct) (op : Op) : (s.step op).2.Distinct := by
  cases op with
  | set a flags =>
    have hset := s.set_eq a flags
    unfold AttributeSet.step
    by_cases hallows : flags.Allows (s.find? a.name).isSome
    · rw [if_pos hallows] at hset
      simp only [hset]
      exact h.put a
    · rw [if_neg hallows] at hset
      simp only [hset]
      exact h
  | get name => exact h
  | remove name => exact h.erase name
  | count name => exact h

end Distinct

/-! ## A history -/

/-- The set that a sequence of operations leaves. -/
def after (s : AttributeSet) : List Op → AttributeSet
  | [] => s
  | op :: ops => (s.step op).2.after ops

/-- **A run goes on from the set that its beginning leaves.** -/
theorem run_append (s : AttributeSet) (ops later : List Op) :
    s.run (ops ++ later) = s.run ops ++ (s.after ops).run later := by
  induction ops generalizing s with
  | nil => rfl
  | cons op ops ih => rw [List.cons_append, run, run, after, ih, List.cons_append]

theorem length_run (s : AttributeSet) (ops : List Op) : (s.run ops).length = ops.length := by
  induction ops generalizing s with
  | nil => rfl
  | cons op ops ih => rw [run, List.length_cons, ih, List.length_cons]

theorem getElem?_run (s : AttributeSet) (ops : List Op) (op : Op) (later : List Op) :
    (s.run (ops ++ op :: later))[ops.length]? = some ((s.after ops).step op) := by
  have hplace : ops.length = (s.run ops).length := (s.length_run ops).symm
  rw [run_append, hplace, List.getElem?_append_right (Nat.le_refl _), Nat.sub_self, run, List.getElem?_cons_zero]

theorem Distinct.after (h : s.Distinct) (ops : List Op) : (s.after ops).Distinct := by
  induction ops generalizing s with
  | nil => exact h
  | cons op ops ih => exact ih (h.step op)

/-- The operation with the meaningful bits of its flags only. -/
def Op.masked : Op → Op
  | .set a flags => .set a flags.masked
  | op => op

theorem step_masked (s : AttributeSet) (op : Op) : s.step op.masked = s.step op := by
  cases op with
  | set a flags =>
    have hset := s.set_masked a flags
    simp only [Op.masked, step, hset]
  | get name => rfl
  | remove name => rfl
  | count name => rfl

/-- **The other bits of the flags do not count.** -/
theorem run_masked (s : AttributeSet) (ops : List Op) : s.run (ops.map Op.masked) = s.run ops := by
  induction ops generalizing s with
  | nil => rfl
  | cons op ops ih => rw [List.map_cons, run, run, step_masked, ih]

end AttributeSet

/-- **Every history keeps the attributes of a node in step with a map that remembers an order.** Let any operations
have been done to an empty set, whatever their names, values and flags. What the next one answers and leaves is then
determined by the set that they have left, and in this set no name occurs twice.

A write succeeds exactly if the flags have the bit for a name that is taken or free. If it does, its name is found with
the new value and all others as before, in the place of the old attribute or at the end; if it does not, nothing has
changed and the error tells which bit was missing. A removal answers what was found, and leaves the other attributes
in their order. The bits without a meaning can be cleared throughout and nothing changes. -/
theorem ordered_map (ops : List AttributeSet.Op) :
    let s := AttributeSet.after {} ops
    (∀ op later, (AttributeSet.run {} (ops ++ op :: later))[ops.length]? = some (s.step op)) ∧
      (s.toList.map (·.name)).Nodup ∧
      (∀ name, s.count name = if (s.find? name).isSome then 1 else 0) ∧
      (∀ a flags, flags.Allows (s.find? a.name).isSome →
        ∃ s', s.step (.set a flags) = (.done (.ok ()), s') ∧ s.Writes a s') ∧
      (∀ a flags, ¬flags.Allows (s.find? a.name).isSome →
        ∃ e, s.step (.set a flags) = (.done (.error e), s) ∧
          e.kind = if (s.find? a.name).isSome then .alreadyExists else .notFound) ∧
      (∀ name, ∃ s', s.step (.remove name) = (.found (s.find? name), s') ∧ s.TakesOut name s') ∧
      (∀ name, s.step (.get name) = (.found (s.find? name), s) ∧
        s.step (.count name) = (.count (s.count name), s)) ∧
      AttributeSet.run {} (ops.map AttributeSet.Op.masked) = AttributeSet.run {} ops := by
  intro s
  have hs : s.Distinct := AttributeSet.Distinct.empty.after ops
  refine ⟨AttributeSet.getElem?_run {} ops, hs, hs.count_eq, fun a flags hallows => ?_, fun a flags hnot => ?_,
    fun name => ⟨_, rfl, hs.takesOut_erase name⟩, fun name => ⟨rfl, rfl⟩, AttributeSet.run_masked {} ops⟩
  · have hset : s.set a flags = .ok (s.put a) := by rw [s.set_eq, if_pos hallows]
    exact ⟨s.put a, by simp only [AttributeSet.step, hset], hs.writes_put a⟩
  · have hset : s.set a flags = .error (if (s.find? a.name).isSome then .attributeExists else .attributeMissing) := by
      rw [s.set_eq, if_neg hnot]
    refine ⟨_, by simp only [AttributeSet.step, hset]; rfl, ?_⟩
    cases (s.find? a.name).isSome <;> rfl

/-- Two names have come, one of them with flags that are set throughout; a write and a removal have failed to change
anything. Then the first one is replaced in its place, by flags that lack the lowest bit, and cannot be where they lack
the next one as well; a third name cannot come without the lowest bit. -/
theorem ordered_map_crowded :
    let ops : List AttributeSet.Op :=
      [.set ⟨"a", [1]⟩ ⟨1⟩, .set ⟨"b", [2]⟩ ⟨255⟩, .set ⟨"a", [9]⟩ ⟨1⟩, .remove "c"]
    let s := AttributeSet.after {} ops
    s.toList = [⟨"a", [1]⟩, ⟨"b", [2]⟩] ∧ s.count "a" = 1 ∧
      (∃ s', s.step (.set ⟨"a", [3]⟩ ⟨254⟩) = (.done (.ok ()), s') ∧ s.Writes ⟨"a", [3]⟩ s' ∧
        s'.toList = [⟨"a", [3]⟩, ⟨"b", [2]⟩]) ∧
      (∃ e, s.step (.set ⟨"a", [3]⟩ ⟨252⟩) = (.done (.error e), s) ∧ e.kind = .alreadyExists) ∧
      (∃ e, s.step (.set ⟨"c", []⟩ ⟨2⟩) = (.done (.error e), s) ∧ e.kind = .notFound) ∧
      ∃ s', s.step (.remove "a") = (.found (some ⟨"a", [1]⟩), s') ∧ s'.toList = [⟨"b", [2]⟩] := by
  intro ops s
  have hlist : s.toList = [⟨"a", [1]⟩, ⟨"b", [2]⟩] := by decide
  have htaken : s.find? "a" = some ⟨"a", [1]⟩ := by decide
  have hfree : s.find? "c" = none := by decide
  obtain ⟨-, -, hcount, hwrite, hrefuse, hremove, -⟩ := ordered_map ops
  obtain ⟨s₁, hstep₁, hwrites⟩ := hwrite ⟨"a", [3]⟩ ⟨254⟩ (by decide)
  obtain ⟨s₂, hstep₂, htakes⟩ := hremove "a"
  refine ⟨hlist, ?_, ⟨s₁, hstep₁, hwrites, ?_⟩, ?_, ?_, s₂, ?_, ?_⟩
  · exact (hcount "a").trans (by rw [htaken]; rfl)
  · cases hstep₁
    decide
  · exact hrefuse ⟨"a", [3]⟩ ⟨252⟩ (by decide)
  · exact hrefuse ⟨"c", []⟩ ⟨2⟩ (by decide)
  · exact hstep₂
  · rw [htakes.order, hlist]
    decide

end PolicyTree
