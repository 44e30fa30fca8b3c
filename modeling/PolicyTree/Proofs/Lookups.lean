import PolicyTree.Proofs.Registry

/-!
# What the look-ups of a registry answer

The look-ups of a registry agree with each other in every registry that operations lead to, and what an
operation changes of them can be said for each look-up by itself.

* `WellFormed.map_id_policies`, `WellFormed.map_id_listEnabled`: the known policies and the enabled ones stand under
  their ids, each of them once. `WellFormed.listEnabled_eq`: the enabled ones are the known ones whose id is enabled.
* `lookups_agree`: **the look-ups agree**, whatever has been done to the registry.
* `WellFormed.enabledNamed?_switch`: the look-up by name after an id is switched on or off.
* `WellFormed.not_enabled_of_free`: **an id that is free is not enabled**, so a policy that is added under it starts out
  not enabled: `WellFormed.listEnabled_add`, `WellFormed.enabledNamed?_add`.
-/

namespace PolicyTree.Registry

variable {r r' : Registry} {p q : Policy} {name : String} {id : UInt8}

namespace WellFormed

variable (hr : r.WellFormed)

include hr

theorem map_id_policies : r.policies.map (·.id) = r.known.ids := by
  unfold policies IdMap.values IdMap.ids
  rw [List.map_map]
  exact List.map_congr_left hr.own

/-- **The policies stand by increasing id**, so no id occurs twice. -/
theorem ids_policies : (r.policies.map (·.id)).Pairwise (· < ·) := by
  rw [hr.map_id_policies]
  exact r.known.increasing

theorem eq_of_id (hp : p ∈ r.policies) (hq : q ∈ r.policies) (h : p.id = q.id) : p = q := by
  have hsame := hr.byId?_self hp
  rw [h, hr.byId?_self hq] at hsame
  exact (Option.some.inj hsame).symm

theorem eq_of_name (hp : p ∈ r.policies) (hq : q ∈ r.policies) (h : p.name = q.name) : p = q :=
  List.inj_on_of_nodup_map hr.names hp hq h

/-- Policies of different names have different ids. -/
theorem id_ne_of_name_ne (hp : p ∈ r.policies) (hq : q ∈ r.policies) (h : p.name ≠ q.name) : p.id ≠ q.id :=
  fun heq => h (congrArg Policy.name (hr.eq_of_id hp hq heq))

/-- **Each enabled id is the id of one enabled policy.** -/
theorem map_id_listEnabled : r.listEnabled.map (·.id) = r.enabledIds := by
  have hfound : ∀ id ∈ r.enabledIds, (r.byId? id).map (·.id) = some id := by
    intro id hid
    obtain ⟨p, hp⟩ := IdMap.mem_ids_iff.1 (hr.contained id hid)
    rw [byId?, hp, Option.map_some, hr.id_of_byId? hp]
  unfold listEnabled
  rw [List.map_filterMap, List.filterMap_congr hfound, List.filterMap_some]

theorem ids_listEnabled : (r.listEnabled.map (·.id)).Pairwise (· < ·) := by
  rw [hr.map_id_listEnabled]
  exact r.enabled.increasing

/-- **The enabled policies are the known ones whose id is enabled**, in their order. -/
theorem listEnabled_eq : r.listEnabled = r.policies.filter (·.id ∈ r.enabledIds) := by
  have hids : ((r.policies.filter (·.id ∈ r.enabledIds)).map (·.id)).Pairwise (· < ·) :=
    hr.ids_policies.sublist (List.filter_sublist.map _)
  refine eq_of_increasing hr.ids_listEnabled hids fun p => ?_
  rw [hr.mem_listEnabled_iff, List.mem_filter, decide_eq_true_iff]

theorem require_of_forall_ne (hname : ∀ p ∈ r.listEnabled, p.name ≠ name) :
    r.require name = .error (.policyNotEnabled name r.enabledNames) := by
  have hnone : r.enabledNamed? name = none := by
    refine Option.eq_none_iff_forall_ne_some.2 fun p hp => ?_
    obtain ⟨hmem, hp⟩ := hr.enabledNamed?_eq_some_iff.1 hp
    exact hname p hmem hp
  unfold require; rw [hnone]; rfl

end WellFormed

/-- **The registries that operations lead to are well formed**, from the system policies and from any configuration. -/
theorem wellFormed_run {start : Registry} (hstart : start = .system ∨ ∃ config, Registry.ofConfig config = .ok start)
    (ops : List Op) : (start.run ops).2.WellFormed := by
  rcases hstart with rfl | ⟨config, h⟩
  · exact WellFormed.system.run ops
  · exact (WellFormed.ofConfig h).run ops

/-- **The look-ups of a registry agree**, in every registry that any operations lead to from the system
policies or from a configuration. Each policy is known under its own id, and no two share an id or a name; every
enabled id is that of a known policy. The enabled policies are listed by increasing id, one for each enabled id; they
are the known ones whose id is enabled. By a name the enabled policy of that name is found, and by an id the known
policy of that id. Where a policy is required, the answer is the listed one of that name, or an error with the name and
the names of the listed ones, in their order. -/
theorem lookups_agree {start : Registry}
    (hstart : start = .system ∨ ∃ config, Registry.ofConfig config = .ok start) (ops : List Op) :
    let r := (start.run ops).2
    (∀ entry ∈ r.known.toList, entry.2.id = entry.1) ∧
      (r.policies.map (·.id)).Pairwise (· < ·) ∧ (r.policies.map Policy.name).Nodup ∧
      (∀ id ∈ r.enabledIds, ∃ p ∈ r.policies, p.id = id) ∧
      (r.listEnabled.map (·.id)).Pairwise (· < ·) ∧
      r.listEnabled.map (·.id) = r.enabledIds ∧
      r.listEnabled = r.policies.filter (·.id ∈ r.enabledIds) ∧
      (∀ name p, r.enabledNamed? name = some p ↔ p ∈ r.listEnabled ∧ p.name = name) ∧
      (∀ id p, r.byId? id = some p ↔ p ∈ r.policies ∧ p.id = id) ∧
      r.enabledNames = r.listEnabled.map Policy.name ∧
      (∀ p ∈ r.listEnabled, r.require p.name = .ok p) ∧
      ∀ name, (∀ p ∈ r.listEnabled, p.name ≠ name) →
        ∃ e, r.require name = .error e ∧ e.report = Report.policyNotEnabled name r.enabledNames := by
  intro r
  have hr : r.WellFormed := wellFormed_run hstart ops
  refine ⟨hr.own, hr.ids_policies, hr.names, ?_, hr.ids_listEnabled, hr.map_id_listEnabled, hr.listEnabled_eq,
    fun name p => hr.enabledNamed?_eq_some_iff, fun id p => hr.byId?_eq_some_iff, rfl, fun p => hr.require_name, ?_⟩
  · intro id hid
    obtain ⟨p, hp⟩ := IdMap.mem_ids_iff.1 (hr.contained id hid)
    exact ⟨p, hr.byId?_eq_some_iff.1 hp⟩
  · intro name hname
    exact ⟨_, hr.require_of_forall_ne hname, rfl⟩

/-- Two configured policies, one of them disabled again, and one that is added and enabled; adding it again,
and enabling one that is not known, fail. -/
theorem lookups_agree_mixed :
    let custom : Policy := ⟨64, ⟨"rs", 12, 4⟩, 262144⟩
    let start : Registry := (system.switch 4 true).switch 1 true
    let r := (start.run [.add custom, .enable "RS-12-4-256k", .add custom, .enable "missing",
      .disable "XOR-2-1-1024k"]).2
    Registry.ofConfig ⟨["XOR-2-1-1024k", "RS-6-3-1024k"], true⟩ = .ok start ∧
      r.enabledIds = [1, 64] ∧ r.known.ids = [1, 2, 3, 4, 5, 64] ∧ r.enabledNames = ["RS-6-3-1024k", "RS-12-4-256k"] ∧
      r.listEnabled = r.policies.filter (·.id ∈ r.enabledIds) ∧ r.enabledNamed? "RS-12-4-256k" = some custom ∧
      ∃ e, r.require "XOR-2-1-1024k" = .error e ∧
        e.report = Report.policyNotEnabled "XOR-2-1-1024k" ["RS-6-3-1024k", "RS-12-4-256k"] := by
  intro custom start r
  have hconfig : Registry.ofConfig ⟨["XOR-2-1-1024k", "RS-6-3-1024k"], true⟩ = .ok start := rfl
  have hpolicies : r.listEnabled = [⟨1, ⟨"rs", 6, 3⟩, systemCellSize⟩, custom] := by decide
  obtain ⟨-, -, -, -, -, -, hlist, hnamed, -, hnames, -, hmissing⟩ :=
    lookups_agree (Or.inr ⟨_, hconfig⟩) [.add custom, .enable "RS-12-4-256k", .add custom,
      .enable "missing", .disable "XOR-2-1-1024k"]
  have hnames : r.enabledNames = ["RS-6-3-1024k", "RS-12-4-256k"] := by
    rw [hnames, hpolicies]; decide
  have hfound : custom ∈ r.listEnabled ∧ custom.name = "RS-12-4-256k" := by
    rw [hpolicies]; decide
  have hother : ∀ p ∈ r.listEnabled, p.name ≠ "XOR-2-1-1024k" := by
    rw [hpolicies]; decide
  obtain ⟨e, herror, hreport⟩ := hmissing "XOR-2-1-1024k" hother
  exact ⟨hconfig, by decide, by decide, hnames, hlist, (hnamed _ _).2 hfound, e, herror, hnames ▸ hreport⟩

/-! ## After a change -/

namespace WellFormed

variable (hr : r.WellFormed)

include hr

/-- **A known policy whose id is switched on or off** is found under its name or not; all other names answer as
before. -/
theorem enabledNamed?_switch (hp : p ∈ r.policies) (enabled : Bool) (name : String) :
    (r.switch p.id enabled).enabledNamed? name =
      if name = p.name then (if enabled then some p else none) else r.enabledNamed? name := by
  have hids : ∀ other, (r.switch p.id enabled).enabled.contains other =
      if other = p.id then enabled else r.enabled.contains other := by
    intro other
    rw [Bool.eq_iff_iff, IdMap.contains_iff]
    refine mem_enabledIds_switch.trans ?_
    split
    · exact Iff.rfl
    · exact IdMap.contains_iff.symm
  have hnamed : (r.switch p.id enabled).named? name = r.named? name := rfl
  unfold enabledNamed?
  rw [hnamed]
  by_cases hname : name = p.name
  · subst hname
    rw [hr.named?_self hp, Option.filter_some, hids, if_pos rfl, if_pos rfl]
  · rw [if_neg hname]
    cases hfound : r.named? name with
    | none => rfl
    | some q =>
      obtain ⟨hq, hqname⟩ := named?_eq_some hfound
      have hne : q.id ≠ p.id := hr.id_ne_of_name_ne hq hp (hqname ▸ hname)
      rw [Option.filter_some, Option.filter_some, hids, if_neg hne]

/-- **An id that is free is not enabled.** -/
theorem not_enabled_of_free (hfree : r.byId? id = none) : id ∉ r.enabledIds :=
  fun hid => byId?_eq_none_iff_notMem.1 hfree (hr.contained id hid)

/-- **A policy that is added starts out not enabled**: the id under which it becomes known was free. -/
theorem listEnabled_add (h : r.add p = .ok r') : r'.listEnabled = r.listEnabled := by
  have hfree : p.id ∉ r.enabledIds := hr.not_enabled_of_free (add_ok h).1
  have hids : r'.enabledIds = r.enabledIds := by
    obtain ⟨-, -, rfl⟩ := add_ok h
    rfl
  unfold listEnabled
  rw [hids]
  refine List.filterMap_congr fun id hid => ?_
  have hne : p.id ≠ id := fun heq => hfree (heq ▸ hid)
  rw [byId?_add h, if_neg hne]

theorem enabledNamed?_add (h : r.add p = .ok r') (name : String) : r'.enabledNamed? name = r.enabledNamed? name := by
  refine Option.ext fun q => ?_
  rw [(hr.add h).enabledNamed?_eq_some_iff, hr.enabledNamed?_eq_some_iff, hr.listEnabled_add h]

end WellFormed

end PolicyTree.Registry
