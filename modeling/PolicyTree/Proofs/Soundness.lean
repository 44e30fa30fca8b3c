import PolicyTree.Proofs.Files

/-!
# Sound policies

Where nothing but the two calls writes policy attributes, those in the tree are what a call has written, for
a policy that was enabled then. A known policy stays known, so none of the attributes is ever damaged.

* `Session.Wrote`: a call in a history has written an attribute. `Session.Sound`: all policy attributes are
  written so.
* `Sound.step`, `Sound.history`: **what a step and a history keep sound.**
* `Sound.inForce_ok`: **nothing on a chain is damaged**, and what is in force is enabled or a file's.
* `stored_policies_sound`: **stored policies are sound when only the calls write them.**
-/

namespace PolicyTree

variable {id : NodeId} {n : Node} {a : Attribute} {p : Policy} {e : Error} {path : String} {s s' : Session}
  {x : Step} {past past' : List (Session × Step)}

namespace Session

/-- **A call has written an attribute to a node**, for a policy that was enabled then. -/
def Wrote (past : List (Session × Step)) (id : NodeId) (a : Attribute) (p : Policy) : Prop :=
  ∃ s path retry o events, (s, Step.assignPolicy path p.name retry) ∈ past ∧
    (s.step (.assignPolicy path p.name retry)).1 = .traced (.ok (.assignOutcome o)) events ∧
    p ∈ s.registry.listEnabled ∧ s.tree.lookup path = .ok (some id) ∧ o.assignment.attributes = [a]

/-- **All policy attributes are what calls have written.** -/
structure Sound (past : List (Session × Step)) (s : Session) : Prop where
  wellFormed : s.WellFormed
  /-- Only directories carry one, and it names a known policy. -/
  written : ∀ {id n a}, s.tree.node? id = some n → n.attributes.find? PolicyName.key = some a →
    n.isDirectory ∧ ∃ p ∈ s.registry.policies, a = PolicyName.toAttribute p.name ∧ Wrote past id a p

theorem Wrote.mono (h : Wrote past id a p) (hpast : past ⊆ past') : Wrote past' id a p := by
  obtain ⟨s, path, retry, o, events, hmem, h⟩ := h
  exact ⟨s, path, retry, o, events, hpast hmem, h⟩

namespace Sound

/-- A session is sound again if its attributes are old ones, or written now. -/
theorem of_written (hs : Sound past s) (hs' : s'.WellFormed) (hpast : past ⊆ past')
    (hpolicies : ∀ p ∈ s.registry.policies, p ∈ s'.registry.policies)
    (h : ∀ {id n a}, s'.tree.node? id = some n → n.attributes.find? PolicyName.key = some a →
      (∃ m, s.tree.node? id = some m ∧ m.attributes.find? PolicyName.key = some a ∧
        n.isDirectory = m.isDirectory) ∨
      (n.isDirectory ∧ ∃ p ∈ s'.registry.policies, a = PolicyName.toAttribute p.name ∧ Wrote past' id a p)) :
    Sound past' s' := by
  refine ⟨hs', fun hn ha => ?_⟩
  rcases h hn ha with ⟨m, hm, hma, hdir⟩ | hnew
  · obtain ⟨hmdir, p, hp, hname, hwrote⟩ := hs.written hm hma
    exact ⟨hdir.trans hmdir, p, hpolicies p hp, hname, hwrote.mono hpast⟩
  · exact hnew

/-- Where neither the tree nor the registry changes, nothing is lost. -/
theorem of_same (hs : Sound past s) (hpast : past ⊆ past') (htree : s'.tree = s.tree)
    (hregistry : s'.registry = s.registry) : Sound past' s' := by
  refine hs.of_written ⟨htree ▸ hs.wellFormed.tree, hregistry ▸ hs.wellFormed.registry⟩ hpast ?_ ?_
  · rw [hregistry]; exact fun _ hp => hp
  · rw [htree]; exact fun hn ha => Or.inl ⟨_, hn, ha, rfl⟩

/-- **A step that spares policy attributes, or is a call, keeps a session sound.** -/
theorem step (hs : Sound past s) (h : Effect (· ≠ PolicyName.key) s x s') :
    Sound (past ++ [(s, x)]) s' := by
  have hs' : s'.WellFormed := hs.wellFormed.moves h.moves
  have hpast : past ⊆ past ++ [(s, x)] := List.subset_append_left _ _
  have ht := hs.wellFormed.tree
  have hr := hs.wellFormed.registry
  cases h with
  | keep => exact hs.of_same hpast rfl rfl
  | poison => exact hs.of_same hpast rfl rfl
  | registry op =>
    exact hs.of_written hs' hpast (fun p hp => hr.mem_policies_step hp op)
      fun hn ha => Or.inl ⟨_, hn, ha, rfl⟩
  | change h =>
    exact hs.of_written hs' hpast (fun _ hp => hp)
      fun hn ha => Or.inl (ht.find?_altered h (fun hne => hne rfl) hn ha)
  | @assign path name p c d n retry hp hc htarget hd hanswer =>
    have hlookup : s.tree.lookup path = .ok (some d) := by
      unfold Tree.lookup; rw [hc]; exact congrArg Except.ok htarget.1
    refine hs.of_written hs' hpast (fun _ hp => hp) fun hm ha => ?_
    rcases Tree.node?_setAttributes_cases htarget.2 hm with ⟨rfl, rfl⟩ | hm
    · -- this is the attribute that the call writes, for a policy that is enabled
      rw [AttributeSet.find?_put_policy] at ha
      cases ha
      obtain ⟨henabled, rfl⟩ := hr.enabledNamed?_eq_some_iff.1 (Registry.require_eq_ok_iff.1 hp)
      obtain ⟨events, hanswer⟩ := hanswer
      exact Or.inr ⟨hd, p, Registry.mem_policies_of_listEnabled henabled, rfl, s, path, retry, _, events,
        List.mem_append_right _ (List.mem_singleton_self _), hanswer, henabled, hlookup, rfl⟩
    · exact Or.inl ⟨_, hm, ha, rfl⟩
  | unassign hc htarget hd hfound =>
    refine hs.of_written hs' hpast (fun _ hp => hp) fun hm ha => ?_
    rcases Tree.node?_setAttributes_cases htarget.2 hm with ⟨-, rfl⟩ | hm
    · rw [(ht.distinct htarget.2).find?_erase, if_pos rfl] at ha; cases ha
    · exact Or.inl ⟨_, hm, ha, rfl⟩

/-- **A history in which no change names the policy attribute keeps a session sound.** -/
theorem history (hs : Sound [] s) (h : History s past s')
    (hpast : ∀ e ∈ past, ∀ c ∈ e.2.changes, c.writes? ≠ some PolicyName.key) : Sound past s' := by
  induction h with
  | nil => exact hs
  | @step past s₁ x _ hx ih =>
    have hbefore := ih fun e he => hpast e (List.mem_append_left _ he)
    have hspares := hpast (s₁, x) (List.mem_append_right _ (List.mem_singleton_self _))
    exact hbefore.step (s₁.effect_step hx fun c hc name hw he => hspares c hc (he ▸ hw))
  | hold _ hl ih => exact (ih hpast).of_same (List.Subset.refl _) rfl rfl
  | release _ ih => exact (ih hpast).of_same (List.Subset.refl _) rfl rfl

theorem start {config : Config} {lock : Lock} {checker : Checker} {log : AuditTrail}
    (h : Session.start config lock checker log = .ok s) : Sound [] s := by
  obtain ⟨-, ht, -⟩ := start_ok h
  refine ⟨(Reachable.start h).wellFormed, fun hn ha => ?_⟩
  rw [ht] at hn
  obtain ⟨-, rfl⟩ := Tree.node?_empty hn
  cases ha

/-! ## What is in force -/

variable (hs : Sound past s) (hlen : ∀ p ∈ s.registry.policies, (Text.utf8 p.name).length < 2 ^ 31)

include hs hlen

/-- What a node says is no damage: an enabled policy, a file's, or none. -/
theorem verdict?_ok {v : Except Error (Option Policy)} (hn : s.tree.node? id = some n)
    (hv : n.verdict? s.registry = some v) : ∃ p?, v = .ok p? ∧ ∀ p, p? = some p →
      p ∈ s.registry.listEnabled ∨ ∃ raw, n.kind = .file raw ∧ s.registry.ofFile? raw = some p := by
  cases hk : n.kind with
  | file raw =>
    rw [Node.verdict?_of_file hk] at hv
    cases hv
    exact ⟨_, rfl, fun p hp => Or.inr ⟨raw, rfl, hp⟩⟩
  | link target =>
    simp only [Node.verdict?, hk, Option.some.injEq] at hv
    exact ⟨none, hv.symm, nofun⟩
  | directory children =>
    simp only [Node.verdict?, hk] at hv
    obtain ⟨a, ha, rfl⟩ := Option.map_eq_some_iff.1 hv
    -- the attribute names a known policy, which may have been disabled since
    obtain ⟨-, p, hp, rfl, -⟩ := hs.written hn ha
    rw [PolicyName.ofAttribute_toAttribute (hlen p hp)]
    exact ⟨_, rfl, fun q hq => Or.inl (hs.wellFormed.registry.enabledNamed?_eq_some_iff.1 hq).1⟩

/-- **Nothing on a chain is damaged**, and what is in force is enabled, or a file's on the chain. -/
theorem inForce_ok (c : Chain) : ∃ p?, s.tree.inForce s.registry c = .ok p? ∧ ∀ p, p? = some p →
    p ∈ s.registry.listEnabled ∨ ∃ id n raw, some id ∈ c.entries ∧ s.tree.node? id = some n ∧
      n.kind = .file raw ∧ s.registry.ofFile? raw = some p := by
  unfold Tree.inForce
  cases hf : c.entries.reverse.findSome? (s.tree.verdict? s.registry) with
  | none => exact ⟨none, rfl, nofun⟩
  | some v =>
    obtain ⟨entry, hmem, hv⟩ := List.exists_of_findSome?_eq_some hf
    obtain ⟨n, hentry, hsaid⟩ := Option.bind_eq_some_iff.1 hv
    obtain ⟨id, rfl, hn⟩ := Option.bind_eq_some_iff.1 hentry
    obtain ⟨p?, rfl, hp⟩ := hs.verdict?_ok hlen hn hsaid
    refine ⟨p?, rfl, fun p h => (hp p h).imp_right ?_⟩
    rintro ⟨raw, hk, hraw⟩
    exact ⟨id, n, raw, List.mem_reverse.1 hmem, hn, hk, hraw⟩

end Sound

/-! ## The two questions -/

/-- A call that is not admitted blames no attribute, unless the permission checker does. -/
theorem kind_of_refused {mode : LockMode} {ask : Option AccessMode} {seen : List Event}
    (h : s.grant mode ask path = (.error e, seen)) (hk : e.kind = .corruptAttribute) :
    s.config.permissions ∧ ∃ c use, s.tree.chain path = .ok c ∧ ask = some use ∧
      s.checker s.tree c use = .error e := by
  rcases grant_error h with ⟨why, rfl⟩ | hc | ⟨c, hc, hpermit⟩
  · cases hk
  · unfold Tree.chain at hc
    cases hp : Path.normalize path with
    | ok names => rw [hp] at hc; cases hc
    | error e' =>
      rw [hp] at hc; cases hc
      rcases Path.normalize_error hp with rfl | rfl <;> cases hk
  · obtain ⟨hasked, use, rfl, hchecker⟩ := permit_error hpermit
    exact ⟨hasked, c, use, hc, rfl, hchecker⟩

namespace Sound

variable (hs : Sound past s) (hlen : ∀ p ∈ s.registry.policies, (Text.utf8 p.name).length < 2 ^ 31)

include hs hlen

/-- Damage that is met by asking for the policy in force is claimed by the permission checker. -/
theorem policyInForce_corrupt (h : (s.perform (Call.policyInForce path)).result = .error e)
    (hk : e.kind = .corruptAttribute) : s.config.permissions ∧
      ∃ c, s.tree.chain path = .ok c ∧ s.checker s.tree c .read = .error e := by
  cases hg : s.grant .read (some .read) path with
  | mk result seen =>
    cases result with
    | error e' =>
      rw [perform_policyInForce_of_refused hg] at h
      cases h
      obtain ⟨hasked, c, use, hc, huse, hchecker⟩ := kind_of_refused hg hk
      cases huse
      exact ⟨hasked, c, hc, hchecker⟩
    | ok c =>
      -- an admitted call finds no target, or no damage
      rw [perform_policyInForce_of_granted hg] at h
      obtain ⟨p?, hp, -⟩ := hs.inForce_ok hlen c
      split at h
      · cases h; cases hk
      · rw [hp] at h; cases h

theorem isCovered_not_corrupt (h : (s.perform (Call.isCovered path)).result = .error e) :
    e.kind ≠ .corruptAttribute := by
  intro hk
  cases hg : s.grant .read none path with
  | mk result seen =>
    cases result with
    | error e' =>
      rw [perform_isCovered_of_refused hg] at h
      cases h
      -- nobody is asked for permission here
      obtain ⟨-, c, use, -, hask, -⟩ := kind_of_refused hg hk
      cases hask
    | ok c =>
      rw [perform_isCovered_of_granted hg] at h
      obtain ⟨p?, hp, -⟩ := hs.inForce_ok hlen c
      rw [Tree.isCovered, hp] at h
      cases h

end Sound

/-- **Stored policies are sound when only the two calls write them**, at every point of every history from an
empty tree, if no known policy's name takes `2 ^ 31` bytes. A node has at most one policy attribute, and only
a directory has one; the attribute is what a call has written there, and its value decodes to the name of
a policy that was enabled then and is still known. So no damage is met: to ask whether there is a policy in
force never ends in it, and to ask for the policy does so only if the permission checker itself claims it.
What is in force along a chain is a policy that is enabled now, or that of a file on the chain. -/
theorem stored_policies_sound {config : Config} {lock : Lock} {checker : Checker} {log : AuditTrail}
    {s₀ : Session} (h₀ : Session.start config lock checker log = .ok s₀) (h : History s₀ past s)
    (hpast : ∀ e ∈ past, ∀ c ∈ e.2.changes, c.writes? ≠ some PolicyName.key)
    (hlen : ∀ p ∈ s.registry.policies, (Text.utf8 p.name).length < 2 ^ 31) :
    (∀ id n, s.tree.node? id = some n → n.attributes.count PolicyName.key ≤ 1 ∧
      ∀ a ∈ n.attributes.toList, a.name = PolicyName.key → n.isDirectory ∧
        ∃ p ∈ s.registry.policies, PolicyName.decode a.value = .ok p.name ∧ Wrote past id a p) ∧
      (∀ path e, (s.perform (Call.policyInForce path)).result = .error e → e.kind = .corruptAttribute →
        s.config.permissions ∧ ∃ c, s.tree.chain path = .ok c ∧ s.checker s.tree c .read = .error e) ∧
      (∀ path e, (s.perform (Call.isCovered path)).result = .error e → e.kind ≠ .corruptAttribute) ∧
      ∀ c, ∃ p?, s.tree.inForce s.registry c = .ok p? ∧ ∀ p, p? = some p →
        p ∈ s.registry.listEnabled ∨ ∃ id n raw, some id ∈ c.entries ∧ s.tree.node? id = some n ∧
          n.kind = .file raw ∧ s.registry.ofFile? raw = some p := by
  have hs : Sound past s := (Sound.start h₀).history h hpast
  refine ⟨fun id n hn => ?_, fun path e => hs.policyInForce_corrupt hlen,
    fun path e => hs.isCovered_not_corrupt hlen, hs.inForce_ok hlen⟩
  have hdistinct := hs.wellFormed.tree.distinct hn
  refine ⟨hdistinct.count_le_one _, fun a ha hname => ?_⟩
  have hfound : n.attributes.find? PolicyName.key = some a := hname ▸ hdistinct.find?_of_mem ha
  obtain ⟨hdir, p, hp, rfl, hwrote⟩ := hs.written hn hfound
  exact ⟨hdir, p, hp, PolicyName.decode_encode (hlen p hp), hwrote⟩

/-- A policy is given to a directory and disabled while the lock is held, and a file is made below. -/
theorem stored_policies_sound_disabled :
    let a : Attribute := PolicyName.toAttribute "RS-6-3-1024k"
    let steps : List Step := [
      .change (.makeDirectories "/a/b"),
      .assignPolicy "/a" "RS-6-3-1024k" none,
      .withLock .read [.registry (.disable "RS-6-3-1024k")],
      .change (.makeFile "/a/f" 5),
      .change (.putAttribute 1 ⟨"user.x", [7]⟩ .create)]
    let s := (initial.run steps).2
    let n : Node := ⟨1, "a", some 0, .directory ⟨[("b", 2), ("f", 3)]⟩, ⟨[a, ⟨"user.x", [7]⟩]⟩⟩
    Session.start .default .free .allowAll (.keeping []) = .ok initial ∧
      (∀ c ∈ Step.changesIn steps, c.writes? ≠ some PolicyName.key) ∧
      (∀ p ∈ s.registry.policies, (Text.utf8 p.name).length < 2 ^ 31) ∧
      s.tree.node? 1 = some n ∧ n.attributes.count PolicyName.key ≤ 1 ∧
      (∃ past, History initial past s ∧ ∃ p ∈ s.registry.policies,
        PolicyName.decode a.value = .ok p.name ∧ Wrote past 1 a p) ∧
      (s.perform (Call.isCovered "b")).result = .error (.relativePath "b") ∧
      (Error.relativePath "b").kind ≠ .corruptAttribute ∧
      ∃ p?, s.tree.inForce s.registry ⟨"/a/f", [some 0, some 1, some 3]⟩ = .ok p? := by
  intro a steps s n
  obtain ⟨past, hpast, hchanges⟩ := history_run initial steps
  have hsteps : ∀ c ∈ Step.changesIn steps, c.writes? ≠ some PolicyName.key := by decide
  have hlen : ∀ p ∈ s.registry.policies, (Text.utf8 p.name).length < 2 ^ 31 := by decide
  have hn : s.tree.node? 1 = some n := rfl
  have hcovered : (s.perform (Call.isCovered "b")).result = .error (.relativePath "b") := rfl
  obtain ⟨hnodes, -, hquestion, hinForce⟩ :=
    stored_policies_sound start_initial hpast (fun e he c hc => hsteps c (hchanges e he c hc)) hlen
  obtain ⟨hcount, hattributes⟩ := hnodes 1 n hn
  obtain ⟨-, hwritten⟩ := hattributes a List.mem_cons_self rfl
  obtain ⟨p?, hp, -⟩ := hinForce ⟨"/a/f", [some 0, some 1, some 3]⟩
  exact ⟨start_initial, hsteps, hlen, hn, hcount, ⟨past, hpast, hwritten⟩, hcovered,
    hquestion _ _ hcovered, p?, hp⟩

/-- Turns every reading down, as if there were damage. -/
def claimsDamage : DenyRule := { mode := .read, kind := .corruptAttribute }

/-- A permission checker may claim damage where nothing has ever been written, and its claim is passed on. -/
theorem checker_claims_damage :
    let s : Session := { initial with checker := claimsDamage.checker }
    Session.start .default .free claimsDamage.checker (.keeping []) = .ok s ∧ History s [] s ∧
      (∀ e ∈ ([] : List (Session × Step)), ∀ c ∈ e.2.changes, c.writes? ≠ some PolicyName.key) ∧
      (∀ p ∈ s.registry.policies, (Text.utf8 p.name).length < 2 ^ 31) ∧
      ¬∀ path e, (s.perform (Call.policyInForce path)).result = .error e → e.kind ≠ .corruptAttribute := by
  intro s
  have hdenied : (s.perform (Call.policyInForce "/")).result = .error (.denied .corruptAttribute "/") := rfl
  refine ⟨?_, .nil, nofun, by decide, fun h => h "/" _ hdenied rfl⟩
  have hstart := start_initial
  unfold Session.start at hstart ⊢
  cases hr : Registry.ofConfig .default with
  | error e => rw [hr] at hstart; cases hstart
  | ok r => rw [hr] at hstart; cases hstart; rfl

end Session

end PolicyTree
