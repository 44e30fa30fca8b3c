import PolicyTree.Attribute

/-!
# The attributes of one node

* `AttributeSet.put`: a write without the check of the flags, to which a write comes once the check
  passes (`set_of_check`).
* `find?_put`, `find?_erase`: the look-ups after a change.
* `AttributeSet.Distinct`: no name twice; kept by both changes (`Distinct.put`, `Distinct.erase`).
  Then taking a name out is filtering by it (`Distinct.erase_toList`), and the attributes of a name
  are the one that is found (`Distinct.filter_eq`).
* `Distinct.put_of_split`, `Distinct.erase_of_split`, `put_of_absent`: what is written comes in the place
  of the old one, or at the end, and all else stays in its order.
* `put_put`, `erase_put`: the last of two writes of one name stays, and taking the name out forgets both.
-/

namespace PolicyTree.AttributeSet

variable {s : AttributeSet} {a : Attribute} {name : String}

/-- The set with an attribute written, whatever the flags say. -/
def put (s : AttributeSet) (a : Attribute) : AttributeSet := ⟨write a s.toList⟩

/-- **No name occurs twice.** -/
def Distinct (s : AttributeSet) : Prop := (s.toList.map (·.name)).Nodup

theorem set_of_check {flags : SetFlags} (h : flags.check (s.find? a.name).isSome = .ok ()) :
    s.set a flags = .ok (s.put a) := by
  unfold set; rw [h]; rfl

theorem set_cases (s : AttributeSet) (a : Attribute) (flags : SetFlags) :
    s.set a flags = .ok (s.put a) ∨ ∃ e, s.set a flags = .error e := by
  cases h : flags.check (s.find? a.name).isSome with
  | ok _ => exact Or.inl (set_of_check h)
  | error e => exact Or.inr ⟨e, by unfold set; rw [h]; rfl⟩

/-- Replacing passes the check on a taken name, creating on a free one. -/
theorem check_replace_or_create (taken : Bool) :
    (if taken then SetFlags.replace else SetFlags.create).check taken = .ok () := by
  cases taken <;> rfl

theorem name_of_find? (h : s.find? name = some a) : a.name = name := by
  simpa using List.find?_some h

theorem find?_write (a : Attribute) (name : String) : ∀ l : List Attribute,
    (write a l).find? (·.name == name) = if a.name = name then some a else l.find? (·.name == name) := by
  intro l
  by_cases h : a.name = name
  · -- the first attribute of the name is the one that is replaced
    rw [if_pos h]
    induction l with
    | nil => exact List.find?_cons_of_pos (by simpa using h)
    | cons b l ih =>
      unfold write
      split
      · exact List.find?_cons_of_pos (by simpa using h)
      · rename_i hb
        rw [List.find?_cons_of_neg (by simpa [← h] using hb), ih]
  · rw [if_neg h]
    induction l with
    | nil => exact List.find?_cons_of_neg (by simpa using h)
    | cons b l ih =>
      unfold write
      split
      · rename_i hb
        rw [List.find?_cons_of_neg (by simpa using h), List.find?_cons_of_neg (by simpa [hb] using h)]
      · by_cases hb : b.name = name
        · rw [List.find?_cons_of_pos (by simpa using hb), List.find?_cons_of_pos (by simpa using hb)]
        · rw [List.find?_cons_of_neg (by simpa using hb), List.find?_cons_of_neg (by simpa using hb), ih]

/-- **A look-up after a write.** -/
theorem find?_put (s : AttributeSet) (a : Attribute) (name : String) :
    (s.put a).find? name = if a.name = name then some a else s.find? name :=
  find?_write a name s.toList

theorem mem_names_write (a : Attribute) (name : String) : ∀ l : List Attribute,
    name ∈ (write a l).map (·.name) ↔ name = a.name ∨ name ∈ l.map (·.name) := by
  intro l
  induction l with
  | nil => simp [write]
  | cons b l ih =>
    unfold write
    by_cases hb : b.name = a.name
    · rw [if_pos hb]; simp [hb]
    · rw [if_neg hb, List.map_cons, List.mem_cons, ih, List.map_cons, List.mem_cons, or_left_comm]

theorem nodup_write (a : Attribute) : ∀ l : List Attribute,
    (l.map (·.name)).Nodup → ((write a l).map (·.name)).Nodup := by
  intro l
  induction l with
  | nil => intro _; simp [write]
  | cons b l ih =>
    intro h
    rw [List.map_cons, List.nodup_cons] at h
    unfold write
    by_cases hb : b.name = a.name
    · rw [if_pos hb, List.map_cons, List.nodup_cons, ← hb]; exact h
    · rw [if_neg hb, List.map_cons, List.nodup_cons, mem_names_write]
      exact ⟨fun hm => hm.elim hb h.1, ih h.2⟩

namespace Distinct

theorem empty : Distinct {} := List.nodup_nil

theorem put (h : s.Distinct) (a : Attribute) : (s.put a).Distinct := nodup_write a s.toList h

theorem erase (h : s.Distinct) (name : String) : (s.erase name).Distinct :=
  h.sublist (List.eraseP_sublist.map _)

/-- **Taking a name out is filtering by it.** -/
theorem erase_toList (h : s.Distinct) (name : String) :
    (s.erase name).toList = s.toList.filter (·.name ≠ name) := by
  obtain ⟨l⟩ := s
  unfold Distinct at h
  unfold AttributeSet.erase
  simp only at h ⊢
  induction l with
  | nil => rfl
  | cons b l ih =>
    rw [List.map_cons, List.nodup_cons] at h
    by_cases hb : b.name = name
    · -- no later attribute has the name, so the filter keeps them all
      rw [List.eraseP_cons_of_pos (by simpa using hb), List.filter_cons_of_neg (by simpa using hb),
        List.filter_eq_self.2]
      intro c hc
      have : c.name ≠ b.name := fun he => h.1 (he ▸ List.mem_map_of_mem hc)
      simpa [hb] using this
    · rw [List.eraseP_cons_of_neg (by simpa using hb), List.filter_cons_of_pos (by simpa using hb),
        ih h.2]

/-- The attributes of a name are the one that is found. -/
theorem filter_eq (h : s.Distinct) (name : String) :
    s.toList.filter (·.name = name) = (s.find? name).toList := by
  obtain ⟨l⟩ := s
  unfold Distinct at h
  unfold find?
  simp only at h ⊢
  induction l with
  | nil => rfl
  | cons b l ih =>
    rw [List.map_cons, List.nodup_cons] at h
    by_cases hb : b.name = name
    · rw [List.filter_cons_of_pos (by simpa using hb), List.find?_cons_of_pos (by simpa using hb),
        List.filter_eq_nil_iff.2]
      · rfl
      · intro c hc he
        exact h.1 (hb ▸ (of_decide_eq_true he) ▸ List.mem_map_of_mem hc)
    · rw [List.filter_cons_of_neg (by simpa using hb), List.find?_cons_of_neg (by simpa using hb),
        ih h.2]

/-- A name is there once if it is found, and else not at all. -/
theorem count_eq (h : s.Distinct) (name : String) : s.count name = if (s.find? name).isSome then 1 else 0 := by
  have hcount : s.count name = (s.toList.filter (·.name = name)).length := List.countP_eq_length_filter
  rw [hcount, h.filter_eq]
  cases s.find? name <;> rfl

theorem count_le_one (h : s.Distinct) (name : String) : s.count name ≤ 1 := by
  rw [h.count_eq]
  split <;> omega

/-- An attribute that is there is found. -/
theorem find?_of_mem (h : s.Distinct) (ha : a ∈ s.toList) : s.find? a.name = some a := by
  have hm : a ∈ s.toList.filter (·.name = a.name) := List.mem_filter.2 ⟨ha, by simp⟩
  rw [h.filter_eq] at hm
  exact Option.mem_toList.1 hm

/-- **A look-up after a name is taken out.** -/
theorem find?_erase (h : s.Distinct) (name other : String) :
    (s.erase name).find? other = if name = other then none else s.find? other := by
  unfold AttributeSet.find?
  rw [h.erase_toList, List.find?_filter]
  split
  · rename_i he; subst he; rw [List.find?_eq_none]; simp
  · rename_i he
    congr 1; funext b
    by_cases hb : b.name = other
    · simp [hb, Ne.symm he]
    · simp [hb]

end Distinct

/-- Where a name is not found, there is nothing to take out. -/
theorem erase_of_find?_none (h : s.find? name = none) : s.erase name = s := by
  unfold erase
  rw [List.eraseP_of_forall_not]
  intro b hb
  exact List.find?_eq_none.1 h b hb

/-! ## Places -/

variable {b : Attribute} {before after : List Attribute}

theorem find?_eq_none_iff : s.find? name = none ↔ ∀ b ∈ s.toList, b.name ≠ name := by
  simp [find?, List.find?_eq_none]

/-- Attributes of other names are passed over. -/
theorem write_append (l : List Attribute) (h : ∀ b ∈ before, b.name ≠ a.name) :
    write a (before ++ l) = before ++ write a l := by
  induction before with
  | nil => rfl
  | cons b before ih =>
    rw [List.cons_append, write, if_neg (h b List.mem_cons_self),
      ih fun c hc => h c (List.mem_cons_of_mem _ hc), List.cons_append]

/-- **A name that is free is added at the end.** -/
theorem put_of_absent (h : ∀ b ∈ s.toList, b.name ≠ a.name) : s.put a = ⟨s.toList ++ [a]⟩ := by
  have hwrite := write_append [] h
  rw [List.append_nil] at hwrite
  rw [put, hwrite]
  rfl

namespace Distinct

/-- No other attribute has the name of one that is there. -/
theorem ne_of_split (h : s.Distinct) (hs : s.toList = before ++ b :: after) :
    ∀ x ∈ before ++ after, x.name ≠ b.name := by
  rw [Distinct, hs] at h
  intro x hx heq
  have hnot := (List.nodup_cons.1 (List.perm_middle.map Attribute.name |>.nodup_iff.1 h)).1
  exact hnot (heq ▸ List.mem_map_of_mem hx)

theorem find?_of_split (h : s.Distinct) (hs : s.toList = before ++ b :: after) (hb : b.name = name) :
    s.find? name = some b := by
  have hmem : b ∈ s.toList := hs ▸ List.mem_append_right _ List.mem_cons_self
  exact hb ▸ h.find?_of_mem hmem

/-- **A name that is taken is replaced in its place.** -/
theorem put_of_split (h : s.Distinct) (hs : s.toList = before ++ b :: after) (hb : b.name = a.name) :
    s.put a = ⟨before ++ a :: after⟩ := by
  have hbefore : ∀ x ∈ before, x.name ≠ a.name := fun x hx =>
    hb ▸ h.ne_of_split hs x (List.mem_append_left _ hx)
  rw [AttributeSet.put, hs, write_append _ hbefore, write, if_pos hb]

/-- **A name that is taken out leaves the others in their order.** -/
theorem erase_of_split (h : s.Distinct) (hs : s.toList = before ++ b :: after) (hb : b.name = name) :
    s.erase name = ⟨before ++ after⟩ := by
  have hbefore : ∀ x ∈ before, ¬(x.name == name) := fun x hx => by
    simpa [← hb] using h.ne_of_split hs x (List.mem_append_left _ hx)
  rw [AttributeSet.erase, hs, List.eraseP_append_right _ hbefore, List.eraseP_cons_of_pos (by simpa using hb)]

end Distinct

/-! ## One name, twice -/

theorem write_write (h : b.name = a.name) : ∀ l : List Attribute, write b (write a l) = write b l := by
  intro l
  induction l with
  | nil => rw [write, write, write, if_pos h.symm]
  | cons c l ih =>
    by_cases hc : c.name = a.name
    · rw [write, if_pos hc, write, if_pos h.symm, write, if_pos (hc.trans h.symm)]
    · have hcb : c.name ≠ b.name := fun heq => hc (heq.trans h)
      rw [write, if_neg hc, write, if_neg hcb, ih, write, if_neg hcb]

theorem eraseP_write (h : a.name = name) : ∀ l : List Attribute,
    (write a l).eraseP (·.name == name) = l.eraseP (·.name == name) := by
  intro l
  induction l with
  | nil => rw [write, List.eraseP_cons_of_pos (by simpa using h), List.eraseP_nil]
  | cons b l ih =>
    by_cases hb : b.name = a.name
    · rw [write, if_pos hb, List.eraseP_cons_of_pos (by simpa using h),
        List.eraseP_cons_of_pos (by simpa using hb.trans h)]
    · have hname : b.name ≠ name := fun heq => hb (heq.trans h.symm)
      rw [write, if_neg hb, List.eraseP_cons_of_neg (by simpa using hname), ih,
        List.eraseP_cons_of_neg (by simpa using hname)]

/-- **The last of two writes stays.** -/
theorem put_put (s : AttributeSet) (h : b.name = a.name) : (s.put a).put b = s.put b := by
  rw [put, put, put, write_write h]

/-- **Taking a name out forgets what was written under it.** -/
theorem erase_put (s : AttributeSet) (h : a.name = name) : (s.put a).erase name = s.erase name := by
  rw [erase, erase, put, eraseP_write h]

namespace Distinct

/-- What is written after its name was taken out stands at the end. -/
theorem put_erase_of_split (h : s.Distinct) (hs : s.toList = before ++ b :: after) (hb : b.name = a.name) :
    (s.erase a.name).put a = ⟨before ++ after ++ [a]⟩ := by
  rw [h.erase_of_split hs hb, put_of_absent]
  exact fun x hx => hb ▸ h.ne_of_split hs x hx

/-- **That is where it stood before only if it was the last.** -/
theorem put_erase_eq_put_iff (h : s.Distinct) (hs : s.toList = before ++ b :: after) (hb : b.name = a.name) :
    (s.erase a.name).put a = s.put a ↔ after = [] := by
  rw [h.put_erase_of_split hs hb, h.put_of_split hs hb, AttributeSet.mk.injEq, List.append_assoc,
    List.append_cancel_left_eq]
  cases after with
  | nil => exact iff_of_true rfl rfl
  | cons x after =>
    -- what stands next has another name
    have hx : x.name ≠ b.name :=
      h.ne_of_split hs x (List.mem_append_right _ List.mem_cons_self)
    refine iff_of_false (fun heq => hx ?_) (List.cons_ne_nil _ _)
    rw [List.cons_append, List.cons.injEq] at heq
    rw [heq.1, hb]

/-- No look-up tells the two apart. -/
theorem find?_put_erase (h : s.Distinct) (a : Attribute) (name : String) :
    ((s.erase a.name).put a).find? name = (s.put a).find? name := by
  rw [find?_put, find?_put]
  by_cases hname : a.name = name
  · rw [if_pos hname, if_pos hname]
  · rw [if_neg hname, if_neg hname, h.find?_erase, if_neg hname]

end Distinct

end PolicyTree.AttributeSet
