import PolicyTree.Proofs.Sorted
import PolicyTree.Registry

/-!
# Well-formed registries

The known policies and the enabled ids are kept apart, and a policy is found by its name but switched by its id.
`Registry.WellFormed` says that they fit together: each policy is known under its own id, no two share a name, and
every enabled id is known. The system policies are well formed and **every operation keeps a registry well formed**
(`WellFormed.step`, `WellFormed.run`), so every registry that a configuration starts with is too
(`WellFormed.ofConfig`).

Then a look-up by name finds exactly the enabled policy of that name (`WellFormed.enabledNamed?_eq_some_iff`), and a
look-up by id exactly the known policy of that id (`WellFormed.byId?_eq_some_iff`). What is known under an id stays so:
an operation can only make a policy known under a free id (`byId?_step`).
-/

namespace PolicyTree.Registry

variable {r r' : Registry} {p : Policy} {name : String} {id : UInt8} {enabled : Bool}

/-- **The known policies and the enabled ids fit together**: each policy is known under its own id, no two share a name,
and every enabled id is known. -/
structure WellFormed (r : Registry) : Prop where
  own : ∀ entry ∈ r.known.toList, entry.2.id = entry.1
  names : (r.policies.map Policy.name).Nodup
  contained : ∀ id ∈ r.enabledIds, id ∈ r.known.ids

theorem WellFormed.system : Registry.system.WellFormed where
  own := by decide
  names := by decide
  contained := fun _ hid => absurd hid List.not_mem_nil

/-! ## Look-ups -/

theorem mem_policies_iff : p ∈ r.policies ↔ ∃ id, r.byId? id = some p := IdMap.mem_values_iff

theorem mem_policies_of_byId? (h : r.byId? id = some p) : p ∈ r.policies := mem_policies_iff.2 ⟨id, h⟩

theorem byId?_eq_none_iff_notMem : r.byId? id = none ↔ id ∉ r.known.ids := by
  rw [IdMap.mem_ids_iff, not_exists]
  exact Option.eq_none_iff_forall_ne_some

theorem mem_listEnabled : p ∈ r.listEnabled ↔ ∃ id ∈ r.enabledIds, r.byId? id = some p := List.mem_filterMap

theorem mem_policies_of_listEnabled (hp : p ∈ r.listEnabled) : p ∈ r.policies := by
  obtain ⟨id, -, hfound⟩ := mem_listEnabled.1 hp
  exact mem_policies_of_byId? hfound

theorem named?_eq_none_iff : r.named? name = none ↔ ∀ p ∈ r.policies, p.name ≠ name := by
  simp [named?, List.find?_eq_none]

theorem named?_eq_some (h : r.named? name = some p) : p ∈ r.policies ∧ p.name = name :=
  ⟨List.mem_of_find?_eq_some h, by simpa using List.find?_some h⟩

theorem require_eq_ok_iff : r.require name = .ok p ↔ r.enabledNamed? name = some p := by
  unfold require
  cases r.enabledNamed? name with
  | none => exact ⟨nofun, nofun⟩
  | some q => simp

/-- A name is known or it is not. -/
theorem known_or_unknown (r : Registry) (name : String) :
    (∃ p ∈ r.policies, p.name = name) ∨ ∀ p ∈ r.policies, p.name ≠ name := by
  by_cases h : ∃ p ∈ r.policies, p.name = name
  · exact Or.inl h
  · exact Or.inr fun p hp hname => h ⟨p, hp, hname⟩

namespace WellFormed

variable (hr : r.WellFormed)

include hr

/-- What is found under an id has it. -/
theorem id_of_byId? (h : r.byId? id = some p) : p.id = id := hr.own _ (IdMap.find?_eq_some_iff.1 h)

/-- **A look-up by id finds exactly the known policy of that id.** -/
theorem byId?_eq_some_iff : r.byId? id = some p ↔ p ∈ r.policies ∧ p.id = id := by
  constructor
  · intro h
    exact ⟨mem_policies_of_byId? h, hr.id_of_byId? h⟩
  · rintro ⟨hp, rfl⟩
    obtain ⟨id, hfound⟩ := mem_policies_iff.1 hp
    rwa [hr.id_of_byId? hfound]

/-- A known policy is under its own id. -/
theorem byId?_self (hp : p ∈ r.policies) : r.byId? p.id = some p := hr.byId?_eq_some_iff.2 ⟨hp, rfl⟩

/-- An id is free if no known policy has it. -/
theorem byId?_eq_none_iff : r.byId? id = none ↔ ∀ q ∈ r.policies, q.id ≠ id := by
  simp only [Option.eq_none_iff_forall_ne_some, ne_eq, hr.byId?_eq_some_iff, not_and]

theorem mem_ids (hp : p ∈ r.policies) : p.id ∈ r.known.ids := IdMap.mem_ids_iff.2 ⟨p, hr.byId?_self hp⟩

/-- A search by name finds the one known policy of the name. -/
theorem named?_eq_some_iff : r.named? name = some p ↔ p ∈ r.policies ∧ p.name = name :=
  find?_key_eq_some_iff hr.names

theorem named?_self (hp : p ∈ r.policies) : r.named? p.name = some p := hr.named?_eq_some_iff.2 ⟨hp, rfl⟩

/-- **The enabled policies are the known ones whose id is enabled.** -/
theorem mem_listEnabled_iff : p ∈ r.listEnabled ↔ p ∈ r.policies ∧ p.id ∈ r.enabledIds := by
  rw [mem_listEnabled]
  constructor
  · rintro ⟨id, hid, hfound⟩
    exact ⟨mem_policies_of_byId? hfound, by rwa [hr.id_of_byId? hfound]⟩
  · rintro ⟨hp, hid⟩
    exact ⟨p.id, hid, hr.byId?_self hp⟩

/-- **A look-up by name finds exactly the enabled policy of that name.** -/
theorem enabledNamed?_eq_some_iff : r.enabledNamed? name = some p ↔ p ∈ r.listEnabled ∧ p.name = name := by
  rw [enabledNamed?, Option.filter_eq_some_iff, hr.named?_eq_some_iff, IdMap.contains_iff, hr.mem_listEnabled_iff]
  exact and_right_comm

theorem require_name (hp : p ∈ r.listEnabled) : r.require p.name = .ok p :=
  require_eq_ok_iff.2 (hr.enabledNamed?_eq_some_iff.2 ⟨hp, rfl⟩)

end WellFormed

/-! ## One more policy -/

/-- A policy is added under an id and a name that are free. -/
theorem add_ok (h : r.add p = .ok r') :
    r.byId? p.id = none ∧ r.named? p.name = none ∧ r' = { r with known := r.known.insert p.id p } := by
  unfold add at h
  split at h
  · cases h
  · rename_i hfree
    rw [Bool.or_eq_true, not_or, IdMap.contains, Option.not_isSome_iff_eq_none, Option.not_isSome_iff_eq_none] at hfree
    cases h
    exact ⟨hfree.1, hfree.2, rfl⟩

theorem byId?_add (h : r.add p = .ok r') (id : UInt8) :
    r'.byId? id = if p.id = id then some p else r.byId? id := by
  obtain ⟨-, -, rfl⟩ := add_ok h
  exact IdMap.find?_insert r.known p.id id p

theorem perm_policies_add (h : r.add p = .ok r') : r'.policies.Perm (p :: r.policies) := by
  obtain ⟨hid, -, rfl⟩ := add_ok h
  exact IdMap.perm_values_insert (byId?_eq_none_iff_notMem.1 hid) p

theorem WellFormed.add (hr : r.WellFormed) (h : r.add p = .ok r') : r'.WellFormed where
  own := by
    rintro ⟨id, q⟩ hentry
    have hfound : r'.byId? id = some q := IdMap.find?_eq_some_iff.2 hentry
    rw [byId?_add h] at hfound
    split at hfound
    · rename_i hid
      cases hfound
      exact hid
    · exact hr.id_of_byId? hfound
  names := by
    have hnew : p.name ∉ r.policies.map Policy.name := by
      intro hm
      obtain ⟨q, hq, hname⟩ := List.mem_map.1 hm
      exact named?_eq_none_iff.1 (add_ok h).2.1 q hq hname
    exact ((perm_policies_add h).map Policy.name).nodup_iff.2 (List.nodup_cons.2 ⟨hnew, hr.names⟩)
  contained := by
    obtain ⟨-, -, rfl⟩ := add_ok h
    exact fun id hid => IdMap.mem_ids_insert.2 (Or.inr (hr.contained id hid))

/-! ## An id that is switched on or off -/

/-- **Switching an id puts it among the enabled ones or takes it away**, and no other id. -/
theorem mem_enabledIds_switch {other : UInt8} :
    other ∈ (r.switch id enabled).enabledIds ↔ if other = id then enabled = true else other ∈ r.enabledIds := by
  unfold switch enabledIds
  cases enabled with
  | false =>
    rw [if_neg Bool.false_ne_true, IdMap.mem_ids_erase]
    by_cases h : other = id <;> simp [h]
  | true =>
    rw [if_pos rfl, IdMap.mem_ids_insert]
    by_cases h : other = id <;> simp [h]

/-- A registry is its known policies and the ids that are enabled. -/
theorem ext_enabledIds (hknown : r.known = r'.known) (h : ∀ id, id ∈ r.enabledIds ↔ id ∈ r'.enabledIds) : r = r' := by
  have henabled : r.enabled = r'.enabled := IdMap.ext_ids h
  exact congrArg₂ Registry.mk hknown henabled

theorem WellFormed.switch (hr : r.WellFormed) (hid : id ∈ r.known.ids) (enabled : Bool) :
    (r.switch id enabled).WellFormed where
  own := hr.own
  names := hr.names
  contained := by
    intro other hother
    rw [mem_enabledIds_switch] at hother
    split at hother
    · rename_i heq
      exact heq ▸ hid
    · exact hr.contained other hother

/-- What is switched is the id of a known policy. -/
theorem switchNamed_ok {was : Bool} (h : r.switchNamed name enabled = .ok (was, r')) :
    ∃ p ∈ r.policies, p.name = name ∧ r' = r.switch p.id enabled := by
  unfold switchNamed at h
  split at h
  · rename_i p hnamed
    obtain ⟨hp, hname⟩ := named?_eq_some hnamed
    cases h
    exact ⟨p, hp, hname, rfl⟩
  · cases h

/-- **A known name can be switched on and off.** -/
theorem WellFormed.switchNamed_of_known (hr : r.WellFormed) (hp : p ∈ r.policies) (enabled : Bool) :
    r.switchNamed p.name enabled = .ok (r.enabled.contains p.id, r.switch p.id enabled) := by
  unfold Registry.switchNamed
  rw [hr.named?_self hp]

/-- A name that is not known cannot; the error lists the enabled names. -/
theorem switchNamed_of_unknown (h : ∀ p ∈ r.policies, p.name ≠ name) :
    r.switchNamed name enabled = .error (.policyNotEnabled name r.enabledNames) := by
  unfold switchNamed
  rw [named?_eq_none_iff.2 h]
  rfl

theorem WellFormed.switchNamed {was : Bool} (hr : r.WellFormed) (h : r.switchNamed name enabled = .ok (was, r')) :
    r'.WellFormed := by
  obtain ⟨p, hp, -, rfl⟩ := switchNamed_ok h
  exact hr.switch (hr.mem_ids hp) enabled

theorem WellFormed.enable (hr : r.WellFormed) (h : r.enable name = .ok r') : r'.WellFormed := by
  unfold Registry.enable at h
  cases hswitch : r.switchNamed name true with
  | error e => rw [hswitch] at h; cases h
  | ok out =>
    rw [hswitch] at h
    cases h
    exact hr.switchNamed hswitch

/-! ## Any operation -/

/-- **Every operation keeps a registry well formed.** -/
theorem WellFormed.step (hr : r.WellFormed) (op : Op) : (r.step op).2.WellFormed := by
  cases op with
  | add p =>
    simp only [Registry.step]
    split
    · rename_i h; exact hr.add h
    · exact hr
  | enable name =>
    simp only [Registry.step]
    split
    · rename_i h; exact hr.enable h
    · exact hr
  | disable name =>
    simp only [Registry.step]
    split
    · rename_i h; exact hr.switchNamed h
    · exact hr
  | enabledNamed name => exact hr
  | byId id => exact hr
  | require name => exact hr
  | enabled => exact hr
  | all => exact hr

/-- **Every sequence of operations keeps a registry well formed.** -/
theorem WellFormed.run (hr : r.WellFormed) (ops : List Op) : (r.run ops).2.WellFormed := by
  induction ops generalizing r with
  | nil => exact hr
  | cons op ops ih => exact ih (hr.step op)

theorem WellFormed.ofConfig {config : Config} (h : Registry.ofConfig config = .ok r) : r.WellFormed := by
  have key : ∀ (names : List String) (r0 : Registry), r0.WellFormed →
      names.foldlM Registry.enable r0 = .ok r → r.WellFormed := by
    intro names
    induction names with
    | nil => intro r0 h0 h; cases h; exact h0
    | cons name names ih =>
      intro r0 h0 h
      rw [List.foldlM_cons] at h
      cases he : r0.enable name with
      | ok r1 => rw [he] at h; exact ih r1 (h0.enable he) h
      | error e => rw [he] at h; cases h
  exact key config.enabled _ WellFormed.system h

/-- **What is known under an id stays so.** The one way to know more is to add a policy under a free id. -/
theorem byId?_step (r : Registry) (op : Op) (id : UInt8) :
    (r.step op).2.byId? id = r.byId? id ∨
      r.byId? id = none ∧ ∃ p, op = .add p ∧ p.id = id ∧ (r.step op).2.byId? id = some p := by
  cases op with
  | add p =>
    simp only [step]
    cases h : r.add p with
    | error e => exact Or.inl rfl
    | ok r' =>
      simp only [byId?_add h]
      by_cases hp : p.id = id
      · -- the id was free, or the policy would not have been added
        exact Or.inr ⟨hp ▸ (add_ok h).1, p, rfl, hp, if_pos hp⟩
      · exact Or.inl (if_neg hp)
  | enable name =>
    left
    simp only [step, enable, switchNamed]
    cases r.named? name <;> rfl
  | disable name =>
    left
    simp only [step, disable, switchNamed]
    cases r.named? name <;> rfl
  | enabledNamed name => exact Or.inl rfl
  | byId id => exact Or.inl rfl
  | require name => exact Or.inl rfl
  | enabled => exact Or.inl rfl
  | all => exact Or.inl rfl

/-- A known policy stays known. -/
theorem WellFormed.mem_policies_step (hr : r.WellFormed) (hp : p ∈ r.policies) (op : Op) :
    p ∈ (r.step op).2.policies := by
  have hknown := hr.byId?_eq_some_iff.2 ⟨hp, rfl⟩
  rcases r.byId?_step op p.id with h | ⟨h, -⟩
  · exact ((hr.step op).byId?_eq_some_iff.1 (h.trans hknown)).1
  · rw [hknown] at h; cases h

end PolicyTree.Registry
