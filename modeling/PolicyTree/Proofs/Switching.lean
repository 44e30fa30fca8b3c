import PolicyTree.Proofs.Effects
import PolicyTree.Proofs.Isolation

/-!
# The effect of a change of the registry on every path

The tree stays when the registry changes, and so does the node that decides on a chain. What it says may
change: a directory names a policy that is enabled or not, and a file carries an id that is known or not.

* `Tree.inForce_cases`: what a chain makes of any registry.
* `Tree.inForce_switch`, `Tree.inForce_add`: what is in force along a chain after a policy is switched on or off, and
  after one becomes known. `Tree.inForce_switch_off`: where a policy that is disabled was in force.
* `registry_change_effect`: **the exact effect of each change, for every path.**
-/

namespace PolicyTree

variable {t : Tree} {r r' : Registry} {c : Chain} {p : Policy} {name : String} {s s' : Session}

/-! ## Along one chain -/

namespace Tree

/-- A directory decides on a chain. -/
def DirectoryDecides (t : Tree) (c : Chain) : Prop := ∃ n, t.decider? c = some n ∧ n.isDirectory

/-- A directory decides on a chain, and its attribute names a policy. -/
def DirectoryNames (t : Tree) (c : Chain) (name : String) : Prop :=
  ∃ n a, t.decider? c = some n ∧ n.isDirectory ∧ n.attributes.find? PolicyName.key = some a ∧
    PolicyName.decode a.value = .ok name

/-- A file decides on a chain, and the number that it was made with, which is not negative, is an id. -/
def FileCarries (t : Tree) (c : Chain) (id : UInt8) : Prop :=
  ∃ n raw, t.decider? c = some n ∧ n.kind = .file raw ∧ 0 ≤ raw ∧ raw.toUInt8 = id

/-- **What a chain makes of a registry.** Nothing is in force in any, or what a file's number says in each; or a
directory decides, which is damaged for all or names a policy to look up. -/
theorem inForce_cases (t : Tree) (c : Chain) :
    (¬t.DirectoryDecides c ∧ ∀ r : Registry, t.inForce r c = .ok none) ∨
      (¬t.DirectoryDecides c ∧ ∃ n raw, t.decider? c = some n ∧ n.kind = .file raw ∧
        ∀ r : Registry, t.inForce r c = .ok (r.ofFile? raw)) ∨
      (t.DirectoryDecides c ∧ ∃ e, ∀ r : Registry, t.inForce r c = .error e) ∨
      (t.DirectoryDecides c ∧ ∃ name, t.DirectoryNames c name ∧
        ∀ r : Registry, t.inForce r c = .ok (r.enabledNamed? name)) := by
  by_cases hd : t.DirectoryDecides c
  · obtain ⟨n, hdec, hdir⟩ := id hd
    obtain ⟨a, ha, hin⟩ := inForce_of_directory_decider hdec hdir
    cases hname : PolicyName.decode a.value with
    | error e => exact Or.inr (Or.inr (Or.inl ⟨hd, e, fun r => by rw [hin, hname]; rfl⟩))
    | ok name =>
      have hnames : t.DirectoryNames c name := ⟨n, a, hdec, hdir, ha, hname⟩
      exact Or.inr (Or.inr (Or.inr ⟨hd, name, hnames, fun r => by rw [hin, hname]; rfl⟩))
  · cases hdec : t.decider? c with
    | none => exact Or.inl ⟨hd, inForce_of_no_decider hdec⟩
    | some n =>
      cases hk : n.kind with
      | directory children => exact absurd ⟨n, hdec, by rw [Node.isDirectory, hk]; rfl⟩ hd
      | file raw => exact Or.inr (Or.inl ⟨hd, n, raw, rfl, hk, inForce_of_file_decider hdec hk⟩)
      | link target => exact Or.inl ⟨hd, inForce_of_link hdec (by rw [hk]; rfl)⟩

/-- A directory names one policy. -/
theorem DirectoryNames.inForce (h : t.DirectoryNames c name) (r : Registry) :
    t.inForce r c = .ok (r.enabledNamed? name) := by
  obtain ⟨n, a, hdec, hdir, ha, hname⟩ := h
  obtain ⟨a', ha', hin⟩ := inForce_of_directory_decider hdec hdir
  obtain rfl : a = a' := Option.some.inj (ha.symm.trans ha')
  rw [hin, hname]; rfl

/-- A policy that a directory has put in force is one that it names. -/
theorem directoryNames_of_inForce (hr : r.WellFormed) (hd : t.DirectoryDecides c)
    (h : t.inForce r c = .ok (some p)) : t.DirectoryNames c p.name := by
  rcases t.inForce_cases c with ⟨hno, -⟩ | ⟨hno, -⟩ | ⟨-, e, hin⟩ | ⟨-, name, hnames, hin⟩
  · exact absurd hd hno
  · exact absurd hd hno
  · rw [hin] at h
    cases h
  · rw [hin] at h
    obtain ⟨-, hname⟩ := hr.enabledNamed?_eq_some_iff.1 (Except.ok.inj h)
    exact hname ▸ hnames

/-- **Switching a policy on or off** settles what is in force on the chains on which a directory that names it decides,
and on no other. -/
theorem inForce_switch (hr : r.WellFormed) (hp : p ∈ r.policies) (enabled : Bool) (c : Chain) :
    (t.DirectoryNames c p.name → t.inForce (r.switch p.id enabled) c = .ok (if enabled then some p else none)) ∧
      (¬t.DirectoryNames c p.name → t.inForce (r.switch p.id enabled) c = t.inForce r c) := by
  constructor
  · intro h
    rw [h.inForce, hr.enabledNamed?_switch hp, if_pos rfl]
  · intro h
    rcases t.inForce_cases c with ⟨-, hin⟩ | ⟨-, -, raw, -, -, hin⟩ | ⟨-, e, hin⟩ | ⟨-, name, hnames, hin⟩
    · rw [hin, hin]
    · rw [hin, hin]
      rfl
    · rw [hin, hin]
    · have hne : name ≠ p.name := fun heq => h (heq ▸ hnames)
      rw [hin, hin, hr.enabledNamed?_switch hp, if_neg hne]

/-- **Disabling a policy** takes it off the chains on which a directory has put it in force. -/
theorem inForce_switch_off (hr : r.WellFormed) (hp : p ∈ r.policies) (c : Chain) :
    (t.inForce r c = .ok (some p) ∧ t.DirectoryDecides c →
        t.inForce (r.switch p.id false) c = .ok none) ∧
      (¬(t.inForce r c = .ok (some p) ∧ t.DirectoryDecides c) →
        t.inForce (r.switch p.id false) c = t.inForce r c) := by
  obtain ⟨hnamed, hother⟩ := inForce_switch (t := t) hr hp false c
  constructor
  · rintro ⟨hin, hd⟩
    exact hnamed (directoryNames_of_inForce hr hd hin)
  · intro h
    by_cases hnames : t.DirectoryNames c p.name
    · -- the policy was not enabled, or it would have been in force
      obtain ⟨n, a, hdec, hdir, -⟩ := id hnames
      have hin := hnames.inForce r
      rw [hnamed hnames, hin]
      cases hq : r.enabledNamed? p.name with
      | none => rfl
      | some q =>
        obtain ⟨hmem, hqname⟩ := hr.enabledNamed?_eq_some_iff.1 hq
        obtain rfl : q = p := hr.eq_of_name (Registry.mem_policies_of_listEnabled hmem) hp hqname
        exact absurd ⟨by rw [hin, hq], n, hdec, hdir⟩ h
    · exact hother hnames

/-- **A policy that becomes known** is in force on the chains on which a file that carries its id decides. -/
theorem inForce_add (hr : r.WellFormed) (h : r.add p = .ok r') (c : Chain) :
    (t.FileCarries c p.id → t.inForce r' c = .ok (some p)) ∧
      (¬t.FileCarries c p.id → t.inForce r' c = t.inForce r c) := by
  constructor
  · rintro ⟨n, raw, hdec, hk, hraw, hid⟩
    rw [inForce_of_file_decider hdec hk, Registry.ofFile?, if_neg (Int8.not_lt.2 hraw), Registry.byId?_add h,
      if_pos hid.symm]
  · intro hfile
    rcases t.inForce_cases c with ⟨-, hin⟩ | ⟨-, n, raw, hdec, hk, hin⟩ | ⟨-, e, hin⟩ | ⟨-, name, -, hin⟩
    · rw [hin, hin]
    · rw [hin, hin, Registry.ofFile?, Registry.ofFile?]
      split
      · rfl
      · rename_i hraw
        have hne : p.id ≠ raw.toUInt8 := fun heq => hfile ⟨n, raw, hdec, hk, Int8.not_lt.1 hraw, heq.symm⟩
        rw [Registry.byId?_add h, if_neg hne]
    · rw [hin, hin]
    · rw [hin, hin, hr.enabledNamed?_add h]

end Tree

namespace Session

/-! ## On every path -/

/-- **One answer on the affected chains**: after a change an answer is in force on these, and on all others what
was in force before. The paths lead where they led. -/
def Redirects (s s' : Session) (affected : Chain → Prop) (answer : Option Policy) : Prop :=
  ∀ q, (Path.normalize q).isOk → ∃ c, s.tree.chain q = .ok c ∧ s'.tree.chain q = .ok c ∧
    (affected c → s'.tree.inForce s'.registry c = .ok answer) ∧
    (¬affected c → s'.tree.inForce s'.registry c = s.tree.inForce s.registry c)

theorem redirects_registry {affected : Chain → Prop} {answer : Option Policy}
    (h : ∀ c, (affected c → s.tree.inForce r' c = .ok answer) ∧
      (¬affected c → s.tree.inForce r' c = s.tree.inForce s.registry c)) :
    s.Redirects { s with registry := r' } affected answer := by
  intro q hq
  obtain ⟨c, hc⟩ := s.tree.chain_of_isOk hq
  exact ⟨c, hc, hc, h c⟩

theorem step_switching_ok {v : Value} (hr : s.registry.WellFormed) (enabled : Bool)
    (h : s.step (.registry (.switching name enabled)) = (.plain (.ok v), s')) :
    ∃ p ∈ s.registry.policies, p.name = name ∧ s' = { s with registry := s.registry.switch p.id enabled } := by
  simp only [step] at h
  rcases s.registry.known_or_unknown name with ⟨p, hp, rfl⟩ | hunknown
  · rw [hr.step_switching hp] at h
    exact ⟨p, hp, rfl, (congrArg Prod.snd h).symm⟩
  · rw [Registry.step_switching_of_unknown hunknown] at h
    cases h

theorem step_add (h : s.registry.add p = .ok r') :
    s.step (.registry (.add p)) = (.plain (.ok (.registry .done)), { s with registry := r' }) := by
  simp only [step, Registry.step, h]
  rfl

theorem step_add_ok {v : Value} (h : s.step (.registry (.add p)) = (.plain (.ok v), s')) :
    ∃ r', s.registry.add p = .ok r' ∧ s' = { s with registry := r' } := by
  simp only [step, Registry.step] at h
  cases hr : s.registry.add p with
  | error e => rw [hr] at h; cases h
  | ok r' => rw [hr] at h; cases h; exact ⟨r', rfl, rfl⟩

/-- Both steps succeed, and the session is as it was. -/
theorem run_disable_enable (hr : s.registry.WellFormed) (hp : p ∈ s.registry.listEnabled) :
    s.run [.registry (.disable p.name), .registry (.enable p.name)] =
      ([.plain (.ok (.registry (.was true))), .plain (.ok (.registry .done))], s) := by
  obtain ⟨hknown, henabled⟩ := hr.mem_listEnabled_iff.1 hp
  have hoff : s.registry.step (.disable p.name) = (.ok (.was true), s.registry.switch p.id false) := by
    refine (hr.step_switching hknown false).trans ?_
    rw [decide_eq_true henabled]
    rfl
  have hon : (s.registry.switch p.id false).step (.enable p.name) = (.ok .done, s.registry) := by
    refine ((hr.switch (hr.mem_ids hknown) false).step_switching hknown true).trans ?_
    rw [Registry.switch_off_on henabled]
    rfl
  simp only [run, step, hoff, hon]
  rfl

/-- **The exact effect of each change of the registry, for every path.** Disabling a policy leaves nothing in
force where a directory has put it in force, and no directory farther away steps in. Enabling a policy puts it
in force where a directory decides that names it. A policy that becomes known is in force where a file decides
that carries its id. On all other paths, damaged ones included, the answer is as it was. An enabled policy that
is disabled and enabled again leaves the session, and so the answer to every question, as it was. -/
theorem registry_change_effect (hs : s.Reachable) :
    (∀ name v s', s.step (.registry (.disable name)) = (.plain (.ok v), s') →
      ∃ p ∈ s.registry.policies, p.name = name ∧ s.Redirects s'
        (fun c => s.tree.inForce s.registry c = .ok (some p) ∧ s.tree.DirectoryDecides c) none) ∧
      (∀ name v s', s.step (.registry (.enable name)) = (.plain (.ok v), s') →
        ∃ p ∈ s.registry.policies, p.name = name ∧
          s.Redirects s' (fun c => s.tree.DirectoryNames c p.name) (some p)) ∧
      (∀ p v s', s.step (.registry (.add p)) = (.plain (.ok v), s') →
        s.Redirects s' (fun c => s.tree.FileCarries c p.id) (some p)) ∧
      ∀ p ∈ s.registry.listEnabled, s.run [.registry (.disable p.name), .registry (.enable p.name)] =
        ([.plain (.ok (.registry (.was true))), .plain (.ok (.registry .done))], s) := by
  have hr := hs.wellFormed.registry
  refine ⟨fun name v s' h => ?_, fun name v s' h => ?_, fun p v s' h => ?_,
    fun p => run_disable_enable hr⟩
  · obtain ⟨p, hp, hname, rfl⟩ := step_switching_ok hr false h
    exact ⟨p, hp, hname, redirects_registry (Tree.inForce_switch_off hr hp)⟩
  · obtain ⟨p, hp, hname, rfl⟩ := step_switching_ok hr true h
    exact ⟨p, hp, hname, redirects_registry (Tree.inForce_switch hr hp true)⟩
  · obtain ⟨r', hadd, rfl⟩ := step_add_ok h
    exact redirects_registry (Tree.inForce_add hr hadd)

/-- A session with a policy on the root, a damaged directory below it, and a file under a number that nothing
is known under. -/
def governed : Session :=
  { initial with tree := ⟨[
      { id := 0, name := "", parent := none, kind := .directory ⟨[("d", 1), ("f", 2)]⟩,
        attributes := ⟨[PolicyName.toAttribute "RS-6-3-1024k"]⟩ },
      { id := 1, name := "d", parent := some 0, kind := .emptyDirectory,
        attributes := ⟨[⟨PolicyName.key, [7]⟩]⟩ },
      { id := 2, name := "f", parent := some 0, kind := .file 64 }]⟩ }

theorem reachable_governed : governed.Reachable := by
  have hrun : (initial.run [
      .change (.makeDirectory "/d"),
      .change (.makeFile "/f" 64),
      .change (.putAttribute 0 (PolicyName.toAttribute "RS-6-3-1024k") .create),
      .change (.putAttribute 1 ⟨PolicyName.key, [7]⟩ .create)]).2 = governed := rfl
  exact hrun ▸ reachable_initial.run _

/-- The directory decides that has the policy, also for what is not there. -/
theorem names_governed : governed.tree.DirectoryNames ⟨"/x", [some 0, none]⟩ "RS-6-3-1024k" := by
  have hlen : (Text.utf8 "RS-6-3-1024k").length < 2 ^ 31 := by decide
  exact ⟨_, _, rfl, rfl, rfl, PolicyName.decode_encode hlen⟩

theorem carries_governed : governed.tree.FileCarries ⟨"/f/x", [some 0, some 2, none]⟩ 64 :=
  ⟨_, _, rfl, rfl, by decide, rfl⟩

/-- The policy of the root is disabled, which the damaged directory does not notice, and a policy under the
number of the file becomes known. -/
theorem registry_change_effect_governed :
    let p : Policy := ⟨1, ⟨"rs", 6, 3⟩, systemCellSize⟩
    let late : Policy := ⟨64, ⟨"rs", 4, 2⟩, systemCellSize⟩
    governed.Reachable ∧
      governed.tree.inForce governed.registry ⟨"/x", [some 0, none]⟩ = .ok (some p) ∧
      (∃ v off, governed.step (.registry (.disable "RS-6-3-1024k")) = (.plain (.ok v), off) ∧
        off.tree.inForce off.registry ⟨"/x", [some 0, none]⟩ = .ok none ∧
        off.tree.inForce off.registry ⟨"/d/x", [some 0, some 1, none]⟩ =
          governed.tree.inForce governed.registry ⟨"/d/x", [some 0, some 1, none]⟩) ∧
      ∃ v added, governed.step (.registry (.add late)) = (.plain (.ok v), added) ∧
        added.tree.inForce added.registry ⟨"/f/x", [some 0, some 2, none]⟩ = .ok (some late) := by
  intro p late
  obtain ⟨hdisable, -, hadd, -⟩ := registry_change_effect reachable_governed
  have hoff : governed.step (.registry (.disable "RS-6-3-1024k")) =
      (.plain (.ok (.registry (.was true))), _) := rfl
  obtain ⟨q, hq, hname, hdisabled⟩ := hdisable _ _ _ hoff
  -- the policy that is disabled is the one that the root names
  have hp : p ∈ governed.registry.policies ∧ p.name = "RS-6-3-1024k" := by decide
  have hnames := reachable_governed.wellFormed.registry.names
  obtain rfl : q = p := List.inj_on_of_nodup_map hnames hq hp.1 (hname.trans hp.2.symm)
  have henabled : governed.registry.enabledNamed? "RS-6-3-1024k" = some p := by decide
  have hroot : governed.tree.inForce governed.registry ⟨"/x", [some 0, none]⟩ = .ok (some p) := by
    rw [names_governed.inForce, henabled]
  have hdamaged : governed.tree.inForce governed.registry ⟨"/d/x", [some 0, some 1, none]⟩ =
      .error (.corrupt .shortName) := rfl
  obtain ⟨c, hc, -, hthere, -⟩ := hdisabled "/x" rfl
  cases (show governed.tree.chain "/x" = .ok ⟨"/x", [some 0, none]⟩ from rfl).symm.trans hc
  obtain ⟨c, hc, -, -, helse⟩ := hdisabled "/d/x" rfl
  cases (show governed.tree.chain "/d/x" = .ok ⟨"/d/x", [some 0, some 1, none]⟩ from rfl).symm.trans hc
  obtain ⟨r', hr'⟩ := Registry.add_of_free (r := governed.registry) (p := late) (by decide) (by decide)
  have hadded := step_add hr'
  obtain ⟨c, hc, -, hfile, -⟩ := hadd _ _ _ hadded "/f/x" rfl
  cases (show governed.tree.chain "/f/x" = .ok ⟨"/f/x", [some 0, some 2, none]⟩ from rfl).symm.trans hc
  refine ⟨reachable_governed, hroot, ⟨_, _, hoff, hthere ⟨hroot, _, rfl, rfl⟩, helse ?_⟩, _, _, hadded,
    hfile carries_governed⟩
  rintro ⟨h, -⟩
  rw [hdamaged] at h
  cases h

end Session

end PolicyTree
