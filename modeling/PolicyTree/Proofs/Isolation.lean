import PolicyTree.Proofs.Lookups

/-!
# The changes of a registry, each by itself

A policy is found by its name and switched by its id. Since no two known policies share either, and no id is enabled
that is not known, a change of one policy leaves all that can be asked of the others.

* `Registry.Adds`, `Registry.Switches`: what the answers are after a policy is made known, and after one is switched on
  or off.
* `Registry.switch_comm`, `Registry.switch_switch`: **two switches of different ids commute, and the second of two of
  one id decides.**
* `Registry.WellFormed.step_switching`: enabling and disabling as one operation, with its answer.
* `Registry.switch_off_on`: disabling an enabled policy and enabling it again changes nothing.
* `Registry.changes_isolated`: **every change has its exact effect and no other**, whatever has been done before.
-/

namespace PolicyTree

namespace Registry

variable {r r' : Registry} {p q : Policy} {name : String} {enabled : Bool} {id other : UInt8}

/-! ## A policy that becomes known -/

/-- **What is new after a policy is made known**: it is found under its id, which was free and is not enabled. The
enabled ids stay, and all else is answered as before. -/
structure Adds (r : Registry) (p : Policy) (r' : Registry) : Prop where
  free : r.byId? p.id = none
  idle : p.id ∉ r'.enabledIds
  enabled : r'.enabled = r.enabled
  byId : ∀ id, r'.byId? id = if id = p.id then some p else r.byId? id
  named : ∀ name, r'.enabledNamed? name = r.enabledNamed? name
  listed : r'.listEnabled = r.listEnabled
  names : r'.enabledNames = r.enabledNames

/-- A policy whose id and name are free can be added. -/
theorem add_of_free (hid : r.byId? p.id = none) (hname : r.named? p.name = none) : ∃ r', r.add p = .ok r' := by
  rw [byId?] at hid
  unfold add IdMap.contains
  rw [hid, hname]
  exact ⟨_, rfl⟩

/-- **A policy can be added exactly if its id is free and no known policy has its name.** -/
theorem add_ok_iff : (∃ r', r.add p = .ok r') ↔ r.byId? p.id = none ∧ ∀ q ∈ r.policies, q.name ≠ p.name := by
  constructor
  · rintro ⟨r', h⟩
    obtain ⟨hid, hname, -⟩ := add_ok h
    exact ⟨hid, named?_eq_none_iff.1 hname⟩
  · rintro ⟨hid, hname⟩
    exact add_of_free hid (named?_eq_none_iff.2 hname)

theorem WellFormed.adds (hr : r.WellFormed) (h : r.add p = .ok r') : r.Adds p r' where
  free := (add_ok h).1
  idle := by
    obtain ⟨hfree, -, rfl⟩ := add_ok h
    exact hr.not_enabled_of_free hfree
  enabled := by
    obtain ⟨-, -, rfl⟩ := add_ok h
    rfl
  byId id := by rw [byId?_add h]; simp only [eq_comm]
  named := hr.enabledNamed?_add h
  listed := hr.listEnabled_add h
  names := by rw [enabledNames, hr.listEnabled_add h, enabledNames]

/-! ## A policy that is switched on or off -/

/-- **What switching a known policy on or off does**: the known policies stay, and of the enabled ids only the policy's
own comes or goes. So every other id and every other name is enabled or not as before, and the policy's own name answers
the policy or nothing. -/
structure Switches (r : Registry) (p : Policy) (enabled : Bool) (r' : Registry) : Prop where
  known : r'.known = r.known
  ids : ∀ id, id ∈ r'.enabledIds ↔ if id = p.id then enabled = true else id ∈ r.enabledIds
  policies : r'.policies = r.policies
  byId : ∀ id, r'.byId? id = r.byId? id
  named : ∀ name, r'.enabledNamed? name =
    if name = p.name then (if enabled then some p else none) else r.enabledNamed? name
  listed : ∀ q, q ∈ r'.listEnabled ↔ if q = p then enabled = true else q ∈ r.listEnabled

/-- **Switches of different ids commute.** -/
theorem switch_comm (h : id ≠ other) (r : Registry) (enabled enabled' : Bool) :
    (r.switch id enabled).switch other enabled' = (r.switch other enabled').switch id enabled := by
  refine ext_enabledIds rfl fun i => ?_
  simp only [mem_enabledIds_switch]
  by_cases hid : i = id
  · have hother : i ≠ other := fun heq => h (hid.symm.trans heq)
    simp only [if_pos hid, if_neg hother]
  · simp only [if_neg hid]

/-- **Of two switches of one id the second decides.** -/
theorem switch_switch (r : Registry) (id : UInt8) (enabled enabled' : Bool) :
    (r.switch id enabled).switch id enabled' = r.switch id enabled' := by
  refine ext_enabledIds rfl fun i => ?_
  simp only [mem_enabledIds_switch]
  by_cases hid : i = id
  · simp only [if_pos hid]
  · simp only [if_neg hid]

/-- **Disabling an enabled policy and enabling it again changes nothing.** -/
theorem switch_off_on (h : id ∈ r.enabledIds) : (r.switch id false).switch id true = r := by
  rw [switch_switch]
  refine ext_enabledIds rfl fun i => ?_
  rw [mem_enabledIds_switch]
  by_cases hid : i = id
  · rw [if_pos hid, hid]
    exact iff_of_true rfl h
  · rw [if_neg hid]

theorem WellFormed.switches (hr : r.WellFormed) (hp : p ∈ r.policies) (enabled : Bool) :
    r.Switches p enabled (r.switch p.id enabled) where
  known := rfl
  ids _ := mem_enabledIds_switch
  policies := rfl
  byId _ := rfl
  named := hr.enabledNamed?_switch hp enabled
  listed q := by
    have hsame : (r.switch p.id enabled).policies = r.policies := rfl
    rw [(hr.switch (hr.mem_ids hp) enabled).mem_listEnabled_iff, hsame, mem_enabledIds_switch, hr.mem_listEnabled_iff]
    by_cases heq : q = p
    · subst heq
      rw [if_pos rfl, if_pos rfl]
      exact and_iff_right hp
    · rw [if_neg heq]
      refine and_congr_right fun hq => ?_
      rw [if_neg fun hid => heq (hr.eq_of_id hq hp hid)]

/-! ## Operations -/

/-- Enabling or disabling the policy of a name. -/
def Op.switching (name : String) : Bool → Op
  | true => .enable name
  | false => .disable name

/-- The answer where it succeeds: disabling tells whether the policy was enabled. -/
def Answer.switched (was : Bool) : Bool → Answer
  | true => .done
  | false => .was was

/-- **A known policy can be switched**, and the answer tells whether it was enabled. -/
theorem WellFormed.step_switching (hr : r.WellFormed) (hp : p ∈ r.policies) (enabled : Bool) :
    r.step (.switching p.name enabled) =
      (.ok (.switched (p.id ∈ r.enabledIds) enabled), r.switch p.id enabled) := by
  have hwas : r.enabled.contains p.id = decide (p.id ∈ r.enabledIds) := IdMap.contains_eq_decide
  have hswitch := hr.switchNamed_of_known hp enabled
  rw [hwas] at hswitch
  cases enabled with
  | true => simp only [Op.switching, Registry.step, Registry.enable, hswitch, Except.map, Answer.switched]
  | false => simp only [Op.switching, Registry.step, Registry.disable, hswitch, Answer.switched]

/-- A name that is not known cannot be switched; the error lists the enabled names. -/
theorem step_switching_of_unknown (h : ∀ p ∈ r.policies, p.name ≠ name) (enabled : Bool) :
    r.step (.switching name enabled) = (.error (.policyNotEnabled name r.enabledNames), r) := by
  cases enabled with
  | true => simp only [Op.switching, step, enable, switchNamed_of_unknown h, Except.map]
  | false => simp only [Op.switching, step, disable, switchNamed_of_unknown h]

/-- Two known policies can be switched one after the other; what the second answers does not hang on the first. -/
theorem WellFormed.run_switching (hr : r.WellFormed) (hp : p ∈ r.policies) (hq : q ∈ r.policies)
    (hne : p.name ≠ q.name) (enabled enabled' : Bool) :
    r.run [.switching p.name enabled, .switching q.name enabled'] =
      ([.ok (.switched (p.id ∈ r.enabledIds) enabled), .ok (.switched (q.id ∈ r.enabledIds) enabled')],
        (r.switch p.id enabled).switch q.id enabled') := by
  have hids : q.id ≠ p.id := hr.id_ne_of_name_ne hq hp hne.symm
  have hkept : q ∈ (r.switch p.id enabled).policies := hq
  have hwas : q.id ∈ (r.switch p.id enabled).enabledIds ↔ q.id ∈ r.enabledIds := by
    rw [mem_enabledIds_switch, if_neg hids]
  have hfirst := hr.step_switching hp enabled
  have hsecond := (hr.switch (hr.mem_ids hp) enabled).step_switching hkept enabled'
  simp only [Registry.run, hfirst, hsecond, hwas]

/-- Switching a name again leaves the registry as it is, known or not. -/
theorem WellFormed.step_switching_again (hr : r.WellFormed) (name : String) (enabled : Bool) :
    (r.run [.switching name enabled, .switching name enabled]).2 = (r.step (.switching name enabled)).2 := by
  rcases r.known_or_unknown name with ⟨p, hp, rfl⟩ | hunknown
  · have hkept : p ∈ (r.switch p.id enabled).policies := hp
    have hfirst := hr.step_switching hp enabled
    have hsecond := (hr.switch (hr.mem_ids hp) enabled).step_switching hkept enabled
    simp only [Registry.run, hfirst, hsecond, switch_switch]
  · have hstep := step_switching_of_unknown hunknown enabled
    simp only [Registry.run, hstep]

/-- **An operation that fails changes nothing.** -/
theorem step_error {op : Op} {e : Error} (h : r.step op = (.error e, r')) : r' = r := by
  cases op with
  | add p =>
    simp only [step] at h
    split at h
    · cases h
    · cases h; rfl
  | enable name =>
    simp only [step] at h
    split at h
    · cases h
    · cases h; rfl
  | disable name =>
    simp only [step] at h
    split at h
    · cases h
    · cases h; rfl
  | require name => exact (congrArg Prod.snd h).symm
  | enabledNamed name => cases h
  | byId id => cases h
  | enabled => cases h
  | all => cases h

theorem step_add_iff : r.step (.add p) = (.ok .done, r') ↔ r.add p = .ok r' := by
  cases hadd : r.add p <;> simp [step, hadd]

/-- **Every change of a registry has its exact effect and no other**, in every registry that any operations lead to
from the system policies or from a configuration.

A policy can be made known exactly if no known policy has its id or its name; then it is found under its id, which is
not among the enabled ones, and all other answers are as before. A name can be switched on or off exactly if a known
policy has it; then that policy's id comes to the enabled ones or goes, no other does, and disabling tells whether it was
there. So two switches of different policies come to the same registry in either order, with the same answers, and doing
one again leaves the registry as it is. An operation that fails changes nothing; where a name could not be switched, the
error lists the names that are enabled at that moment. -/
theorem changes_isolated {start : Registry} (hstart : start = .system ∨ ∃ config, Registry.ofConfig config = .ok start)
    (ops : List Op) :
    let r := (start.run ops).2
    (∀ p, (∃ r', r.step (.add p) = (.ok .done, r')) ↔ ∀ q ∈ r.policies, q.id ≠ p.id ∧ q.name ≠ p.name) ∧
      (∀ p r', r.step (.add p) = (.ok .done, r') → r.Adds p r') ∧
      (∀ name enabled, (∃ answer r', r.step (.switching name enabled) = (.ok answer, r')) ↔
        ∃ p ∈ r.policies, p.name = name) ∧
      (∀ p ∈ r.policies, ∀ enabled, ∃ r', r.step (.switching p.name enabled) =
        (.ok (.switched (p.id ∈ r.enabledIds) enabled), r') ∧ r.Switches p enabled r') ∧
      (∀ p ∈ r.policies, ∀ q ∈ r.policies, p.name ≠ q.name → ∀ enabled enabled', ∃ answer answer' r',
        r.run [.switching p.name enabled, .switching q.name enabled'] = ([.ok answer, .ok answer'], r') ∧
          r.run [.switching q.name enabled', .switching p.name enabled] = ([.ok answer', .ok answer], r')) ∧
      (∀ name enabled, (r.run [.switching name enabled, .switching name enabled]).2 =
        (r.step (.switching name enabled)).2) ∧
      (∀ op e r', r.step op = (.error e, r') → r' = r) ∧
      ∀ name enabled e r', r.step (.switching name enabled) = (.error e, r') →
        e.report = Report.policyNotEnabled name r.enabledNames := by
  intro r
  have hr : r.WellFormed := wellFormed_run hstart ops
  refine ⟨fun p => ?_, fun p r' h => hr.adds (step_add_iff.1 h), fun name enabled => ?_, fun p hp enabled => ?_,
    fun p hp q hq hne enabled enabled' => ?_, hr.step_switching_again, fun op e r' => step_error,
    fun name enabled e r' h => ?_⟩
  · simp only [step_add_iff, add_ok_iff, hr.byId?_eq_none_iff, forall_and]
  · rcases r.known_or_unknown name with ⟨p, hp, rfl⟩ | hunknown
    · exact iff_of_true ⟨_, _, hr.step_switching hp enabled⟩ ⟨p, hp, rfl⟩
    · rw [step_switching_of_unknown hunknown]
      exact iff_of_false nofun fun ⟨p, hp, hname⟩ => hunknown p hp hname
  · exact ⟨_, hr.step_switching hp enabled, hr.switches hp enabled⟩
  · have hthere := hr.run_switching hp hq hne enabled enabled'
    have hback := hr.run_switching hq hp hne.symm enabled' enabled
    rw [switch_comm (hr.id_ne_of_name_ne hq hp hne.symm)] at hback
    exact ⟨_, _, _, hthere, hback⟩
  · rcases r.known_or_unknown name with ⟨p, hp, rfl⟩ | hunknown
    · rw [hr.step_switching hp] at h
      cases h
    · rw [step_switching_of_unknown hunknown] at h
      cases h
      rfl

/-- A custom policy that has been added and enabled beside a system policy. One more can be added under a free id and a
free name, but not where the name is composed like another one's. The custom policy is disabled without the other, and
the two can be disabled and enabled in either order. -/
theorem changes_isolated_custom :
    let custom : Policy := ⟨64, ⟨"rs", 12, 4⟩, 262144⟩
    let fresh : Policy := ⟨0, ⟨"xor", 3, 1⟩, systemCellSize⟩
    let alike : Policy := ⟨200, ⟨"Rs-Legacy", 6, 3⟩, 1048577⟩
    let ops : List Op := [.add custom, .enable "RS-12-4-256k", .enable "XOR-2-1-1024k", .disable "missing"]
    let r := (system.run ops).2
    r.enabledNames = ["XOR-2-1-1024k", "RS-12-4-256k"] ∧
      (∃ r', r.step (.add fresh) = (.ok .done, r') ∧ r.Adds fresh r') ∧
      (¬∃ r', r.step (.add alike) = (.ok .done, r')) ∧
      (∃ r', r.step (.disable "RS-12-4-256k") = (.ok (.was true), r') ∧ r'.enabledNamed? "RS-12-4-256k" = none ∧
        r'.enabledNamed? "XOR-2-1-1024k" = r.enabledNamed? "XOR-2-1-1024k") ∧
      (∃ answer answer' r', r.run [.disable "RS-12-4-256k", .enable "XOR-2-1-1024k"] =
          ([.ok answer, .ok answer'], r') ∧
        r.run [.enable "XOR-2-1-1024k", .disable "RS-12-4-256k"] = ([.ok answer', .ok answer], r')) ∧
      (∀ e r', r.step (.enable "missing") = (.error e, r') →
        e.report = Report.policyNotEnabled "missing" ["XOR-2-1-1024k", "RS-12-4-256k"]) := by
  intro custom fresh alike ops r
  let xor : Policy := ⟨4, ⟨"xor", 2, 1⟩, systemCellSize⟩
  have hcustom : custom ∈ r.policies ∧ custom.name = "RS-12-4-256k" := by decide
  have hxor : xor ∈ r.policies ∧ xor.name = "XOR-2-1-1024k" := by decide
  have hnames : r.enabledNames = ["XOR-2-1-1024k", "RS-12-4-256k"] := by decide
  have hwas : decide (custom.id ∈ r.enabledIds) = true := by decide
  obtain ⟨haddable, hadds, -, hswitches, hcommute, -, -, hreport⟩ := changes_isolated (Or.inl rfl) ops
  obtain ⟨r₁, hadd⟩ := (haddable fresh).2 (by decide)
  obtain ⟨r₂, hoff, hswitched⟩ := hswitches custom hcustom.1 false
  have hboth := hcommute custom hcustom.1 xor hxor.1 (by rw [hcustom.2, hxor.2]; decide) false true
  rw [hcustom.2, hwas] at hoff
  rw [hcustom.2, hxor.2] at hboth
  refine ⟨hnames, ⟨r₁, hadd, hadds fresh r₁ hadd⟩, fun halike => ?_, ⟨r₂, hoff, ?_, ?_⟩, hboth, fun e r' h => ?_⟩
  · exact absurd ((haddable alike).1 halike) (by decide)
  · rw [hswitched.named, if_pos hcustom.2.symm]
    rfl
  · rw [hswitched.named, hcustom.2, if_neg (by decide)]
  · rw [← hnames]
    exact hreport "missing" true e r' h

end Registry

end PolicyTree
