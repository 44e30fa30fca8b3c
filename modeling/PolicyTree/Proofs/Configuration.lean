import PolicyTree.Proofs.Lookups

/-!
# What a configuration enables

A configuration lists names. It stands for the set of them: neither their order nor a repetition matters, as long as
each is the name of a system policy.

* `Registry.namedAmong`, `Registry.enabling`: the system policies named in a list, and the registry with these enabled.
* `Registry.enable_enabling`, `Registry.foldlM_enable`: **one more name, and all of them one after the other.**
* `Registry.ofConfig_of_known`, `Registry.ofConfig_of_unknown`: the two ends of a configuration.
* `config_enables_named`: **a configuration enables exactly the policies that it names**, or fails at the first unknown
  name.
-/

namespace PolicyTree

namespace Registry

variable {config config' : Config} {before later names : List String} {name : String} {r : Registry}
  {id : UInt8}

/-- A system policy has the name. -/
def Known (name : String) : Prop := ∃ p ∈ systemPolicies, p.name = name

instance (name : String) : Decidable (Known name) := inferInstanceAs (Decidable (∃ p ∈ systemPolicies, p.name = name))

/-- The system policies named in a list, by increasing id. -/
def namedAmong (names : List String) : List Policy := systemPolicies.filter (·.name ∈ names)

/-- The system policies stand by increasing id, and so do those that are named. -/
theorem ids_namedAmong (names : List String) : ((namedAmong names).map (·.id)).Pairwise (· < ·) := by
  have hsystem : (systemPolicies.map (·.id)).Pairwise (· < ·) := by decide
  exact hsystem.sublist (List.filter_sublist.map _)

theorem nodup_namedAmong (names : List String) : ((namedAmong names).map Policy.name).Nodup := by
  have hsystem : (systemPolicies.map Policy.name).Nodup := by decide
  exact hsystem.sublist (List.filter_sublist.map _)

/-- The ids of the system policies named in a list. -/
def idsAmong (names : List String) : IdSet where
  toList := (namedAmong names).map fun p => (p.id, ())
  increasing := by
    rw [List.map_map]
    exact ids_namedAmong names

/-- The registry of the system policies, with those named in a list enabled. -/
def enabling (names : List String) : Registry := { system with enabled := idsAmong names }

theorem enabling_nil : enabling [] = system := rfl

theorem policies_enabling (names : List String) : (enabling names).policies = systemPolicies := rfl

theorem mem_enabledIds_enabling :
    id ∈ (enabling names).enabledIds ↔ ∃ p ∈ systemPolicies, p.name ∈ names ∧ p.id = id := by
  have hids : (enabling names).enabledIds = (namedAmong names).map (·.id) := List.map_map
  rw [hids, List.mem_map]
  simp only [namedAmong, List.mem_filter, decide_eq_true_iff, and_assoc]

theorem WellFormed.enabling (names : List String) : (enabling names).WellFormed where
  own := WellFormed.system.own
  names := WellFormed.system.names
  contained := by
    intro id hid
    obtain ⟨p, hp, -, rfl⟩ := mem_enabledIds_enabling.1 hid
    exact WellFormed.system.mem_ids hp

theorem listEnabled_enabling (names : List String) : (enabling names).listEnabled = namedAmong names := by
  rw [(WellFormed.enabling names).listEnabled_eq, policies_enabling]
  refine List.filter_congr fun p hp => decide_eq_decide.2 ?_
  rw [mem_enabledIds_enabling]
  constructor
  · rintro ⟨q, hq, hname, hid⟩
    exact WellFormed.system.eq_of_id hq hp hid ▸ hname
  · intro hname
    exact ⟨p, hp, hname, rfl⟩

/-- Only which names there are matters. -/
theorem enabling_congr (h : ∀ name, name ∈ before ↔ name ∈ later) : enabling before = enabling later := by
  refine ext_enabledIds rfl fun id => ?_
  simp only [mem_enabledIds_enabling, h]

/-- **One more name enables one more policy.** -/
theorem enable_enabling (names : List String) (hname : Known name) :
    (enabling names).enable name = .ok (enabling (names ++ [name])) := by
  obtain ⟨p, hp, rfl⟩ := hname
  have hswitch : (enabling names).switch p.id true = enabling (names ++ [p.name]) := by
    refine ext_enabledIds rfl fun id => ?_
    rw [mem_enabledIds_switch, mem_enabledIds_enabling, mem_enabledIds_enabling]
    by_cases hid : id = p.id
    · rw [if_pos hid]
      exact iff_of_true rfl ⟨p, hp, List.mem_append_right _ (List.mem_singleton.2 rfl), hid.symm⟩
    · rw [if_neg hid]
      refine exists_congr fun q => and_congr_right fun hq => and_congr_left fun hqid => ?_
      -- the policy of another id has another name
      have hne : q.name ≠ p.name := fun heq => hid (by rw [← hqid, WellFormed.system.eq_of_name hq hp heq])
      simp [hne]
  rw [enable, (WellFormed.enabling names).switchNamed_of_known hp, hswitch]
  rfl

/-- A name that is not known stops it; the error lists what has been enabled so far. -/
theorem enable_enabling_of_unknown (names : List String) (hname : ¬Known name) :
    (enabling names).enable name = .error (.policyNotEnabled name ((namedAmong names).map Policy.name)) := by
  have hother : ∀ p ∈ (enabling names).policies, p.name ≠ name := by
    rw [policies_enabling]
    exact fun p hp heq => hname ⟨p, hp, heq⟩
  rw [enable, switchNamed_of_unknown hother, enabledNames, listEnabled_enabling]
  rfl

/-- **Known names are enabled one after the other**, whatever comes after them. -/
theorem foldlM_enable (rest : List String) : ∀ names before : List String, (∀ name ∈ names, Known name) →
    (names ++ rest).foldlM enable (enabling before) = rest.foldlM enable (enabling (before ++ names)) := by
  intro names
  induction names with
  | nil => intro before _; rw [List.nil_append, List.append_nil]
  | cons name names ih =>
    intro before hknown
    have hfirst := enable_enabling before (hknown name List.mem_cons_self)
    have hrest := ih (before ++ [name]) fun n hn => hknown n (List.mem_cons_of_mem _ hn)
    rw [List.append_assoc, List.singleton_append] at hrest
    rw [List.cons_append, List.foldlM_cons, hfirst]
    exact hrest

/-- A configuration of known names enables the policies of these names. -/
theorem ofConfig_of_known (h : ∀ name ∈ config.enabled, Known name) :
    ofConfig config = .ok (enabling config.enabled) := by
  have hfold := foldlM_enable [] config.enabled [] h
  rw [List.append_nil, List.nil_append, enabling_nil] at hfold
  exact hfold

/-- A configuration with an unknown name fails at the first one, with what has been enabled before it. -/
theorem ofConfig_of_unknown (hsplit : config.enabled = before ++ name :: later) (hbefore : ∀ n ∈ before, Known n)
    (hname : ¬Known name) :
    ofConfig config = .error (.policyNotEnabled name ((namedAmong before).map Policy.name)) := by
  have hfold := foldlM_enable (name :: later) before [] hbefore
  have hstop := enable_enabling_of_unknown before hname
  rw [enabling_nil, List.nil_append, List.foldlM_cons, hstop, ← hsplit] at hfold
  exact hfold

/-- All names are known, or there is a first unknown one. -/
theorem known_or_first (names : List String) : (∀ name ∈ names, Known name) ∨
    ∃ before name later, names = before ++ name :: later ∧ (∀ n ∈ before, Known n) ∧ ¬Known name := by
  cases hfind : names.find? (¬Known ·) with
  | none =>
    have hall := List.find?_eq_none.1 hfind
    exact Or.inl fun name hname => by simpa using hall name hname
  | some name =>
    obtain ⟨hname, before, later, hsplit, hbefore⟩ := List.find?_eq_some_iff_append.1 hfind
    exact Or.inr ⟨before, name, later, hsplit, fun n hn => by simpa using hbefore n hn, by simpa using hname⟩

theorem ofConfig_eq_ok_iff :
    ofConfig config = .ok r ↔ (∀ name ∈ config.enabled, Known name) ∧ r = enabling config.enabled := by
  rcases known_or_first config.enabled with hknown | ⟨before, name, later, hsplit, hbefore, hname⟩
  · rw [ofConfig_of_known hknown, Except.ok.injEq, eq_comm]
    exact (and_iff_right hknown).symm
  · have hmem : name ∈ config.enabled := hsplit ▸ List.mem_append_right _ List.mem_cons_self
    rw [ofConfig_of_unknown hsplit hbefore hname]
    exact iff_of_false nofun fun h => hname (h.1 name hmem)

/-- **Configurations of the same names come to the same registry.** -/
theorem ofConfig_congr (h : ∀ name, name ∈ config.enabled ↔ name ∈ config'.enabled) :
    ofConfig config = .ok r ↔ ofConfig config' = .ok r := by
  rw [ofConfig_eq_ok_iff, ofConfig_eq_ok_iff, enabling_congr h]
  simp only [h]

end Registry

/-- **A configuration enables exactly the policies that it names.** The registry of a configuration is there exactly if
each listed name is that of a system policy. The system policies are known then, and the enabled ones are those that are
listed, by increasing id, in whatever order and however often the names are listed. Otherwise there is a first name that
no system policy has; the error carries it, and the names of the policies that are listed before it, by increasing id
and each once.

So two configurations that list the same names either both fail, or come to one and the same registry, which answers any
operations alike. -/
theorem config_enables_named (config : Config) :
    ((∃ r, Registry.ofConfig config = .ok r) ↔ ∀ name ∈ config.enabled, ∃ p ∈ systemPolicies, p.name = name) ∧
      (∀ r, Registry.ofConfig config = .ok r → r.policies = systemPolicies ∧
        r.listEnabled = systemPolicies.filter (·.name ∈ config.enabled) ∧
        (r.listEnabled.map (·.id)).Pairwise (· < ·)) ∧
      (∀ before name later, config.enabled = before ++ name :: later →
        (∀ n ∈ before, ∃ p ∈ systemPolicies, p.name = n) → (∀ p ∈ systemPolicies, p.name ≠ name) →
        ∃ e named, Registry.ofConfig config = .error e ∧
          e.report = Report.policyNotEnabled name (named.map Policy.name) ∧
          named = systemPolicies.filter (·.name ∈ before) ∧
          (named.map (·.id)).Pairwise (· < ·) ∧ (named.map Policy.name).Nodup) ∧
      ∀ config', (∀ name, name ∈ config.enabled ↔ name ∈ config'.enabled) →
        ((∃ r, Registry.ofConfig config = .ok r) ↔ ∃ r, Registry.ofConfig config' = .ok r) ∧
        ∀ r r', Registry.ofConfig config = .ok r → Registry.ofConfig config' = .ok r' →
          r = r' ∧ ∀ ops, r.run ops = r'.run ops := by
  refine ⟨?_, fun r hr => ?_, fun before name later hsplit hbefore hname => ?_, fun config' hnames => ?_⟩
  · simp only [Registry.ofConfig_eq_ok_iff, exists_and_left, exists_eq, and_true]
    rfl
  · obtain ⟨-, rfl⟩ := Registry.ofConfig_eq_ok_iff.1 hr
    rw [Registry.listEnabled_enabling]
    exact ⟨Registry.policies_enabling _, rfl, Registry.ids_namedAmong _⟩
  · have hunknown : ¬Registry.Known name := fun ⟨p, hp, heq⟩ => hname p hp heq
    exact ⟨_, Registry.namedAmong before, Registry.ofConfig_of_unknown hsplit hbefore hunknown, rfl, rfl,
      Registry.ids_namedAmong before, Registry.nodup_namedAmong before⟩
  · have hsame := fun r => Registry.ofConfig_congr (r := r) hnames
    refine ⟨exists_congr hsame, fun r r' hr hr' => ?_⟩
    have heq : r = r' := Except.ok.inj (((hsame r).1 hr).symm.trans hr')
    exact ⟨heq, fun ops => by rw [heq]⟩

/-- Three names, one of them twice and none in its place, enable three policies by increasing id, as do the same names
listed otherwise; with an unknown name among them, the two policies that are listed before it are reported, each once. -/
theorem config_enables_named_repeated :
    let config : Config := ⟨["XOR-2-1-1024k", "RS-3-2-1024k", "XOR-2-1-1024k", "RS-6-3-1024k"], true⟩
    let config' : Config := ⟨["RS-6-3-1024k", "RS-6-3-1024k", "XOR-2-1-1024k", "RS-3-2-1024k"], false⟩
    let damaged : Config := ⟨["XOR-2-1-1024k", "RS-3-2-1024k", "XOR-2-1-1024k", "rs-6-3-1024k", "RS-6-3-1024k", ""], true⟩
    (∃ r r', Registry.ofConfig config = .ok r ∧ Registry.ofConfig config' = .ok r' ∧ r = r' ∧
        r.enabledNames = ["RS-6-3-1024k", "RS-3-2-1024k", "XOR-2-1-1024k"]) ∧
      ∃ e, Registry.ofConfig damaged = .error e ∧
        e.report = Report.policyNotEnabled "rs-6-3-1024k" ["RS-3-2-1024k", "XOR-2-1-1024k"] := by
  intro config config' damaged
  obtain ⟨hbuilds, hlisted, -, halike⟩ := config_enables_named config
  obtain ⟨hbuilds', -⟩ := config_enables_named config'
  obtain ⟨-, -, hfails, -⟩ := config_enables_named damaged
  obtain ⟨r, hr⟩ := hbuilds.2 (by decide)
  obtain ⟨r', hr'⟩ := hbuilds'.2 (by decide)
  have hinto : ∀ name ∈ config.enabled, name ∈ config'.enabled := by decide
  have hback : ∀ name ∈ config'.enabled, name ∈ config.enabled := by decide
  have hsame : ∀ name, name ∈ config.enabled ↔ name ∈ config'.enabled := fun name => ⟨hinto name, hback name⟩
  have hnames : r.enabledNames = ["RS-6-3-1024k", "RS-3-2-1024k", "XOR-2-1-1024k"] := by
    rw [Registry.enabledNames, (hlisted r hr).2.1]
    decide
  obtain ⟨e, named, he, hreport, hnamed, -⟩ :=
    hfails ["XOR-2-1-1024k", "RS-3-2-1024k", "XOR-2-1-1024k"] "rs-6-3-1024k" _ rfl (by decide) (by decide)
  have hreported : named.map Policy.name = ["RS-3-2-1024k", "XOR-2-1-1024k"] := by
    rw [hnamed]
    decide
  exact ⟨⟨r, r', hr, hr', ((halike config' hsame).2 r r' hr hr').1, hnames⟩, e, he, hreported ▸ hreport⟩

end PolicyTree
