import PolicyTree.Proofs.Canonical
import PolicyTree.Proofs.Isolation

/-!
# What a policy's name tells

A name is composed of a codec and of three numbers, with dashes between. The codec is any text, and may have dashes and
digits of its own; the numbers have no dashes, so a name is read from its end.

* `append_dash_inj`: **a text is cut at its last dash in one way.**
* `Policy.Alike`: two policies agree in all that a name tells. `Policy.nameOf_eq_iff`: **then, and only then, two names
  are the same.**
* `Registry.add_eq_error_iff`, `Registry.add_add_ok_iff`: what keeps a policy from becoming known.
* `names_tell_parameters`: all of this, for names, for attributes and for registries.
-/

namespace PolicyTree

/-! ## Texts with dashes -/

/-- A dash cannot come before the last one. -/
theorem eq_nil_of_dash {between after after' : List Char} (hafter : '-' ∉ after)
    (h : '-' :: after = between ++ '-' :: after') : between = [] := by
  cases between with
  | nil => rfl
  | cons c rest =>
    have hrest : after = rest ++ '-' :: after' := (List.cons.inj h).2
    exact absurd (hrest ▸ List.mem_append_right _ List.mem_cons_self) hafter

/-- **A text is cut at its last dash in one way.** -/
theorem append_dash_inj {before before' after after' : List Char} (hafter : '-' ∉ after) (hafter' : '-' ∉ after') :
    before ++ '-' :: after = before' ++ '-' :: after' ↔ before = before' ∧ after = after' := by
  refine ⟨fun h => ?_, fun ⟨hbefore, hsame⟩ => by rw [hbefore, hsame]⟩
  rcases List.append_eq_append_iff.1 h with ⟨between, hbetween, htail⟩ | ⟨between, hbetween, htail⟩
  · rw [eq_nil_of_dash hafter htail] at hbetween htail
    exact ⟨(hbetween.trans (List.append_nil before)).symm, (List.cons.inj htail).2⟩
  · rw [eq_nil_of_dash hafter' htail] at hbetween htail
    exact ⟨hbetween.trans (List.append_nil before'), (List.cons.inj htail).2.symm⟩

theorem dash_notMem_toDigits (n : Nat) : '-' ∉ Nat.toDigits 10 n := by
  intro h
  have hdigit : '-'.isDigit = true := Nat.isDigit_of_mem_toDigits (by decide) (by decide) h
  exact absurd hdigit (by decide)

theorem toDigits_inj {m n : Nat} : Nat.toDigits 10 m = Nat.toDigits 10 n ↔ m = n := by
  refine ⟨fun h => ?_, fun h => by rw [h]⟩
  have hread := congrArg (Nat.ofDigitChars 10 · 0) h
  simpa only [Nat.ofDigitChars_ten_toDigits] using hread

/-! ## Names -/

namespace Policy

variable {p q : Policy}

/-- **Two policies agree in all that a name tells**: the codec in ASCII capitals, the numbers of data and parity units,
and the whole kibibytes of a cell. -/
def Alike (p q : Policy) : Prop :=
  p.schema.codec.toList.map Char.toUpper = q.schema.codec.toList.map Char.toUpper ∧
    p.schema.data = q.schema.data ∧ p.schema.parity = q.schema.parity ∧
    p.cellSize.toNat / 1024 = q.cellSize.toNat / 1024

instance (p q : Policy) : Decidable (p.Alike q) := inferInstanceAs (Decidable (_ ∧ _))

/-- A name as it is read from its end. -/
theorem toList_nameOf (s : Schema) (k : UInt32) : (nameOf s k).toList =
    ((s.codec.toList.map Char.toUpper ++ '-' :: Nat.toDigits 10 s.data.toNat) ++
      '-' :: Nat.toDigits 10 s.parity.toNat) ++ '-' :: (Nat.toDigits 10 (k.toNat / 1024) ++ ['k']) := by
  simp [nameOf]

/-- **Names are the same exactly if what they are composed of is.** -/
theorem nameOf_eq_iff {s s' : Schema} {k k' : UInt32} : nameOf s k = nameOf s' k' ↔
    s.codec.toList.map Char.toUpper = s'.codec.toList.map Char.toUpper ∧ s.data = s'.data ∧ s.parity = s'.parity ∧
      k.toNat / 1024 = k'.toNat / 1024 := by
  have hcell : ∀ n, '-' ∉ Nat.toDigits 10 n ++ ['k'] := by
    intro n h
    rcases List.mem_append.1 h with h | h
    · exact dash_notMem_toDigits n h
    · exact absurd h (by decide)
  -- the cell is cut off first, then the parity units, then the data units
  rw [← String.toList_inj, toList_nameOf, toList_nameOf, append_dash_inj (hcell _) (hcell _),
    append_dash_inj (dash_notMem_toDigits _) (dash_notMem_toDigits _),
    append_dash_inj (dash_notMem_toDigits _) (dash_notMem_toDigits _)]
  rw [List.append_left_inj, toDigits_inj, toDigits_inj, toDigits_inj, UInt8.toNat_inj, UInt8.toNat_inj, and_assoc,
    and_assoc]

theorem name_eq_iff : p.name = q.name ↔ p.Alike q := nameOf_eq_iff

end Policy

/-! ## Registries -/

namespace Registry

variable {r r' : Registry} {p q : Policy}

theorem mem_policies_add (h : r.add p = .ok r') : q ∈ r'.policies ↔ q = p ∨ q ∈ r.policies := by
  rw [(perm_policies_add h).mem_iff, List.mem_cons]

/-- A policy can become known where its id is free and no known policy is alike. -/
theorem add_ok_iff_alike :
    (∃ r', r.add p = .ok r') ↔ r.byId? p.id = none ∧ ∀ known ∈ r.policies, ¬known.Alike p := by
  simp only [add_ok_iff, ne_eq, Policy.name_eq_iff]

/-- **What keeps a policy from becoming known**: its id is taken, or a known policy is alike. -/
theorem add_eq_error_iff {e : Error} : r.add p = .error e ↔
    e = .policyRegistered ∧ ((∃ known, r.byId? p.id = some known) ∨ ∃ known ∈ r.policies, known.Alike p) := by
  have hfails : r.add p = .error e ↔ e = .policyRegistered ∧ ¬∃ r', r.add p = .ok r' := by
    unfold add
    split
    · simp [eq_comm]
    · simp
  rw [hfails, add_ok_iff_alike, not_and_or, ← ne_eq, Option.ne_none_iff_exists']
  simp only [not_forall, not_not, exists_prop]

/-- Where operations have led, an id is taken by a policy that has it. -/
theorem WellFormed.add_eq_error_iff (hr : r.WellFormed) {e : Error} : r.add p = .error e ↔
    e = .policyRegistered ∧ ∃ known ∈ r.policies, known.id = p.id ∨ known.Alike p := by
  simp only [Registry.add_eq_error_iff, hr.byId?_eq_some_iff, and_or_left, exists_or]

/-- **A second policy can become known after the first** exactly if it could before, has another id and is not
alike. -/
theorem add_add_ok_iff (h : r.add p = .ok r') :
    (∃ r'', r'.add q = .ok r'') ↔ (∃ r'', r.add q = .ok r'') ∧ p.id ≠ q.id ∧ ¬p.Alike q := by
  have hid : r'.byId? q.id = none ↔ p.id ≠ q.id ∧ r.byId? q.id = none := by
    rw [byId?_add h]
    by_cases heq : p.id = q.id <;> simp [heq]
  simp only [add_ok_iff_alike, mem_policies_add h, forall_eq_or_imp, hid]
  constructor
  · rintro ⟨⟨hne, hfree⟩, hfirst, hrest⟩
    exact ⟨⟨hfree, hrest⟩, hne, hfirst⟩
  · rintro ⟨⟨hfree, hrest⟩, hne, hfirst⟩
    exact ⟨⟨hne, hfree⟩, hfirst, hrest⟩

end Registry

/-- **A name tells the parameters of a policy, and nothing else.** Two names are the same exactly if the codecs are but
for ASCII capitals, the numbers of data and of parity units are, and so are the whole kibibytes of a cell, whatever
dashes and digits there are in the codecs.

So the attributes of two policies are the same exactly if the policies are alike, and what is read from the attribute
of one is the name of another exactly if the two are alike. A policy cannot become known where its id is taken or where
a known one is alike, and nothing else keeps it from becoming known; wherever operations have led, the id is taken
exactly if a known policy has it. And of two policies the first stands in the way of the second in no other case. -/
theorem names_tell_parameters :
    (∀ (s s' : Schema) (k k' : UInt32), Policy.nameOf s k = Policy.nameOf s' k' ↔
        s.codec.toList.map Char.toUpper = s'.codec.toList.map Char.toUpper ∧ s.data = s'.data ∧ s.parity = s'.parity ∧
          k.toNat / 1024 = k'.toNat / 1024) ∧
      (∀ p q : Policy, PolicyName.toAttribute p.name = PolicyName.toAttribute q.name ↔ p.Alike q) ∧
      (∀ p q : Policy, PolicyName.ofAttribute (PolicyName.toAttribute p.name) = .ok q.name ↔
        p.Alike q ∧ (Text.utf8 q.name).length ≤ 2 ^ 31 - 1) ∧
      (∀ (r : Registry) (p : Policy), ((∃ e, r.add p = .error e) ↔
          (∃ known, r.byId? p.id = some known) ∨ ∃ known ∈ r.policies, known.Alike p) ∧
        ∀ e, r.add p = .error e → e = .policyRegistered) ∧
      (∀ start : Registry, (start = .system ∨ ∃ config, Registry.ofConfig config = .ok start) → ∀ ops p,
        let r := (start.run ops).2
        (∃ e, r.add p = .error e) ↔ ∃ known ∈ r.policies, known.id = p.id ∨ known.Alike p) ∧
      ∀ (r r' : Registry) (p q : Policy), r.add p = .ok r' →
        ((∃ r'', r'.add q = .ok r'') ↔ (∃ r'', r.add q = .ok r'') ∧ p.id ≠ q.id ∧ ¬p.Alike q) := by
  have hattribute : ∀ p q : Policy, PolicyName.encode p.name = PolicyName.encode q.name ↔ p.Alike q := by
    intro p q
    rw [← Policy.name_eq_iff]
    exact ⟨PolicyName.encode_injective, fun h => by rw [h]⟩
  refine ⟨fun s s' k k' => Policy.nameOf_eq_iff, fun p q => ?_, fun p q => ?_, fun r p => ⟨?_, fun e h => ?_⟩,
    fun start hstart ops p => ?_, fun r r' p q => Registry.add_add_ok_iff⟩
  · rw [PolicyName.toAttribute, PolicyName.toAttribute, Attribute.mk.injEq, hattribute]
    exact and_iff_right rfl
  · have hown : (PolicyName.toAttribute p.name).name = PolicyName.key := rfl
    rw [PolicyName.ofAttribute, if_pos hown, PolicyName.decode_eq_ok_iff, and_comm]
    exact and_congr_left' (hattribute p q)
  · simp only [Registry.add_eq_error_iff, exists_eq_left]
  · exact (Registry.add_eq_error_iff.1 h).1
  · simp only [(Registry.wellFormed_run hstart ops).add_eq_error_iff, exists_eq_left]

/-- Codecs with dashes and digits in them do not run into the numbers. Capitals and a part of a kibibyte do not make
another name, so the third policy cannot become known after the second, while the first can; nor can one of another
name under the id of the second. -/
theorem names_tell_parameters_dashes :
    let first : Policy := ⟨7, ⟨"rs-6", 3, 2⟩, 1048576⟩
    let second : Policy := ⟨8, ⟨"rs", 6, 3⟩, 2097152⟩
    let third : Policy := ⟨9, ⟨"Rs", 6, 3⟩, 2097153⟩
    let fourth : Policy := ⟨8, ⟨"xor", 5, 5⟩, 2097152⟩
    first.name ≠ second.name ∧ second.name = third.name ∧
      PolicyName.toAttribute second.name = PolicyName.toAttribute third.name ∧
      PolicyName.ofAttribute (PolicyName.toAttribute second.name) = .ok third.name ∧
      (∃ r, Registry.system.add second = .ok r ∧ (∃ e, r.add third = .error e) ∧ ∃ r', r.add first = .ok r') ∧
      ∃ e, (Registry.system.run [.add second]).2.add fourth = .error e := by
  intro first second third fourth
  obtain ⟨hnames, hattributes, hread, hadd, hreached, hsecond⟩ := names_tell_parameters
  have halike : second.Alike third := by decide
  obtain ⟨r, hr⟩ : ∃ r, Registry.system.add second = .ok r := Registry.add_ok_iff_alike.2 (by decide)
  refine ⟨fun h => ?_, (hnames _ _ _ _).2 halike, (hattributes _ _).2 halike, (hread _ _).2 ⟨halike, by decide⟩,
    ⟨r, hr, ?_, ?_⟩, ?_⟩
  · exact absurd ((hnames _ _ _ _).1 h) (by decide)
  · exact (hadd r third).1.2 (Or.inr ⟨second, (Registry.mem_policies_add hr).2 (Or.inl rfl), halike⟩)
  · exact (hsecond _ _ _ _ hr).2 ⟨Registry.add_ok_iff_alike.2 (by decide), by decide, by decide⟩
  · exact (hreached _ (Or.inl rfl) _ _).2 ⟨second, by decide, Or.inl rfl⟩

end PolicyTree
