import PolicyTree.Proofs.Canonical
import PolicyTree.Proofs.Effects
import PolicyTree.Proofs.Lookups

/-!
# Which fault comes first

Several things can be wrong with a call at once. They are listed in the order in which a call finds them, each
said of the session by itself, and a call fails with the first one that applies.

* `Session.nameFault`, `Session.lockFault`, `pathFault`, `Session.accessFault`, `Session.targetFault`,
  `Session.directoryFault`: what can be wrong, and `Session.FaultsRead`: how it is reported.
* `grant_of_fault`, `grant_of_sound`: what may be acted on, from the faults of a grant.
* `inForce_error`: **what is in force can only be hidden by damage to the deciding attribute.**
* `calls_fail_first`: **each of the four calls fails with the first fault of its list**, and otherwise
  succeeds, or answers what is in force.
-/

namespace PolicyTree

variable {α : Type}

/-- The error of a result, if it is one. -/
def fault? : Except Error α → Option Error
  | .ok _ => none
  | .error e => some e

/-- **The first of some faults**, each of which may apply or not. -/
def firstFault (faults : List (Option Error)) : Option Error := faults.findSome? id

/-- **A result is the first fault that applies**, and where none does, it is as promised. -/
structure FailsFirst (faults : List (Option Error)) (result : Except Error α)
    (promised : Except Error α → Prop) : Prop where
  fails : ∀ e, firstFault faults = some e → result = .error e
  otherwise : firstFault faults = none → promised result

theorem fault?_eq_some_iff {r : Except Error α} {e : Error} : fault? r = some e ↔ r = .error e := by
  cases r <;> simp [fault?]

theorem fault?_eq_none_iff {r : Except Error α} : fault? r = none ↔ ∃ a, r = .ok a := by
  cases r <;> simp [fault?]

theorem firstFault_cons (fault : Option Error) (faults : List (Option Error)) :
    firstFault (fault :: faults) = fault.or (firstFault faults) := by
  unfold firstFault
  cases fault <;> rfl

theorem firstFault_append (faults later : List (Option Error)) :
    firstFault (faults ++ later) = (firstFault faults).or (firstFault later) := List.findSome?_append

theorem firstFault_singleton (fault : Option Error) : firstFault [fault] = fault := by
  rw [firstFault_cons]
  exact Option.or_none

/-- The path cannot be followed: it is not absolute, or leads above the root. -/
def pathFault (path : String) : Option Error := fault? (Path.normalize path)

namespace Session

/-- No enabled policy has the requested name. -/
def nameFault (s : Session) (name : String) : Option Error :=
  if name ∈ s.registry.enabledNames then none
  else some (.policyNotEnabled name s.registry.enabledNames)

/-- The lock is refused. -/
def lockFault (s : Session) (mode : LockMode) : Option Error :=
  match s.lock.acquire mode with
  | .ok _ => none
  | .error why => some (.lockRefused why)

/-- What is wrong with the chain of a path, if it has one. -/
def chainFault (s : Session) (path : String) (fault : Chain → Option Error) : Option Error :=
  (s.tree.chain path).toOption.bind fault

/-- Access is checked, and the permission checker turns it down. -/
def accessFault (s : Session) (use : AccessMode) (path : String) : Option Error :=
  s.chainFault path fun c => if s.config.permissions then fault? (s.checker s.tree c use) else none

/-- There is no node at a path. -/
def targetFault (s : Session) (path : String) : Option Error :=
  s.chainFault path fun c => if c.last?.isNone then some (.targetMissing c.path) else none

/-- The node at a path is a file or a link. -/
def directoryFault (s : Session) (wrong : String → Error) (path : String) : Option Error :=
  s.chainFault path fun c => (c.last?.bind s.tree.node?).bind fun n =>
    if n.isDirectory then none else some (wrong c.path)

/-- What can be wrong with a grant. -/
def grantFaults (s : Session) (mode : LockMode) (ask : Option AccessMode) (path : String) :
    List (Option Error) :=
  s.lockFault mode :: pathFault path :: ask.toList.map (s.accessFault · path)

/-- **How faults are reported**: of which kind they are, and what they carry. A path that cannot be followed is
carried as it was given, and the path of a target in canonical form. The checker's error is its own. -/
structure FaultsRead (s : Session) (path name : String) : Prop where
  notEnabled : ∀ e, s.nameFault name = some e →
    e.report.kind = .invalidPolicy ∧ e.report.context = .policy name s.registry.enabledNames
  refused : ∀ mode e, s.lockFault mode = some e → e.report.kind = .lockFailed
  noPath : ∀ e, pathFault path = some e → e.report.kind = .invalidInput ∧ e.report.context = .path path
  denied : ∀ use e, s.accessFault use path = some e ↔
    s.config.permissions ∧ ∃ c, s.tree.chain path = .ok c ∧ s.checker s.tree c use = .error e
  missing : ∀ e, s.targetFault path = some e → s.tree.lookup path = .ok none ∧ e.report.kind = .notFound ∧
    ∃ names, Path.normalize path = .ok names ∧ e.report.context = .path (Path.join names)
  noDirectory : ∀ wrong ∈ [Error.assignToNonDirectory, .unassignFromNonDirectory], ∀ e,
    s.directoryFault wrong path = some e →
      (∃ d n, s.tree.lookup path = .ok (some d) ∧ s.tree.node? d = some n ∧
        (n.kind.type = .file ∨ n.kind.type = .link)) ∧ e.report.kind = .notADirectory ∧
      ∃ names, Path.normalize path = .ok names ∧ e.report.context = .path (Path.join names)

variable {s : Session} {path name : String} {mode : LockMode} {ask : Option AccessMode} {e : Error} {c : Chain}
  {fault : Chain → Option Error}

/-! ## Names and chains -/

theorem require_of_fault (hr : s.registry.WellFormed) (h : s.nameFault name = some e) :
    s.registry.require name = .error e := by
  unfold nameFault at h
  by_cases hname : name ∈ s.registry.enabledNames
  · rw [if_pos hname] at h; cases h
  · rw [if_neg hname] at h; cases h
    refine hr.require_of_forall_ne fun p hp heq => hname ?_
    exact heq ▸ List.mem_map_of_mem hp

theorem require_of_sound (hr : s.registry.WellFormed) (h : s.nameFault name = none) :
    ∃ p ∈ s.registry.listEnabled, p.name = name ∧ s.registry.require name = .ok p := by
  have hname : name ∈ s.registry.enabledNames := by
    unfold nameFault at h
    by_contra hname
    rw [if_neg hname] at h; cases h
  obtain ⟨p, hp, rfl⟩ := List.mem_map.1 hname
  exact ⟨p, hp, rfl, hr.require_name hp⟩

theorem chainFault_of_chain (hc : s.tree.chain path = .ok c) : s.chainFault path fault = fault c := by
  unfold chainFault
  rw [hc]; rfl

theorem chainFault_eq_some_iff :
    s.chainFault path fault = some e ↔ ∃ c, s.tree.chain path = .ok c ∧ fault c = some e := by
  unfold chainFault
  cases s.tree.chain path <;> simp [Except.toOption]

/-- A path has no chain exactly if it cannot be followed. -/
theorem pathFault_eq_some_iff : pathFault path = some e ↔ s.tree.chain path = .error e := by
  unfold pathFault Tree.chain
  cases Path.normalize path <;> simp [fault?, bind, Except.bind, pure, Except.pure]

theorem chain_of_sound (h : pathFault path = none) : ∃ c, s.tree.chain path = .ok c := by
  obtain ⟨names, hp⟩ := fault?_eq_none_iff.1 h
  exact ⟨_, Tree.chain_eq_ok_iff.2 ⟨names, hp, rfl⟩⟩

/-! ## Grants -/

/-- **A grant is refused for the first of its faults.** -/
theorem grant_of_fault (h : firstFault (s.grantFaults mode ask path) = some e) :
    ∃ seen, s.grant mode ask path = (.error e, seen) := by
  rw [grantFaults, firstFault_cons, firstFault_cons, Option.or_eq_some_iff, Option.or_eq_some_iff] at h
  unfold lockFault at h
  unfold grant
  cases hl : s.lock.acquire mode with
  | error why =>
    simp only [hl] at h
    rcases h with h | ⟨h, -⟩
    · cases h; exact ⟨_, rfl⟩
    · cases h
  | ok lock =>
    simp only [hl] at h
    rcases h with h | ⟨-, hpath | ⟨hpath, haccess⟩⟩
    · cases h
    · rw [pathFault_eq_some_iff.1 hpath]; exact ⟨_, rfl⟩
    · -- the path can be followed, so there is something to ask, and it is turned down
      obtain ⟨c, hc⟩ := chain_of_sound (s := s) hpath
      cases ask with
      | none => cases haccess
      | some use =>
        rw [Option.toList_some, List.map_singleton, firstFault_singleton, accessFault,
          chainFault_of_chain hc] at haccess
        have hpermit : s.permit c (some use) = .error e := by
          unfold permit
          by_cases hp : s.config.permissions
          · simp only [if_pos hp] at haccess ⊢; exact fault?_eq_some_iff.1 haccess
          · rw [if_neg hp] at haccess; cases haccess
        simp only [hc, hpermit]
        exact ⟨_, rfl⟩

/-- **A grant without faults gives the chain of the path.** -/
theorem grant_of_sound (h : firstFault (s.grantFaults mode ask path) = none) :
    ∃ c seen, s.tree.chain path = .ok c ∧ s.grant mode ask path = (.ok c, seen) := by
  rw [grantFaults, firstFault_cons, firstFault_cons, Option.or_eq_none_iff, Option.or_eq_none_iff] at h
  obtain ⟨hlock, hpath, haccess⟩ := h
  obtain ⟨c, hc⟩ := chain_of_sound (s := s) hpath
  have hpermit : s.permit c ask = .ok () := by
    cases ask with
    | none => rfl
    | some use =>
      rw [Option.toList_some, List.map_singleton, firstFault_singleton, accessFault,
        chainFault_of_chain hc] at haccess
      unfold permit
      by_cases hp : s.config.permissions
      · simp only [if_pos hp] at haccess ⊢; exact (fault?_eq_none_iff.1 haccess).choose_spec
      · simp only [if_neg hp]
  unfold lockFault at hlock
  unfold grant
  cases hl : s.lock.acquire mode with
  | error why => rw [hl] at hlock; cases hlock
  | ok lock => exact ⟨c, _, hc, by simp only [hc, hpermit]; rfl⟩

/-! ## Targets -/

/-- What a path leads to is there. -/
theorem target_or_missing (hs : s.WellFormed) (hc : s.tree.chain path = .ok c) :
    c.last? = none ∨ ∃ d n, s.tree.Targets c d n := by
  cases hlast : c.last? with
  | none => exact Or.inl rfl
  | some d =>
    have hlookup : s.tree.lookup path = .ok (some d) := by rw [Tree.lookup_of_chain hc, hlast]
    obtain ⟨⟨n, hn⟩, -⟩ := hs.tree.lookup_eq_some_iff.1 hlookup
    exact Or.inr ⟨d, n, hlast, hn⟩

/-- **A call to a directory fails for the first fault of its target.** -/
theorem targetDirectory_of_fault {wrong : String → Error} (hs : s.WellFormed) (hc : s.tree.chain path = .ok c)
    (h : firstFault [s.targetFault path, s.directoryFault wrong path] = some e) :
    s.tree.targetDirectory c (wrong c.path) = .error e := by
  rw [firstFault_cons, firstFault_singleton, targetFault, directoryFault, chainFault_of_chain hc,
    chainFault_of_chain hc] at h
  rcases target_or_missing hs hc with hlast | ⟨d, n, ht⟩
  · rw [hlast] at h; cases h
    exact Tree.targetDirectory_of_missing (by rw [hlast]; rfl) _
  · rw [Tree.targetDirectory_of_targets ht]
    rw [ht.1, Option.bind_some, ht.2, Option.bind_some] at h
    by_cases hdir : n.isDirectory
    · rw [if_pos hdir] at h; cases h
    · rw [if_neg hdir] at h ⊢; cases h; rfl

/-- **A target without faults is a directory.** -/
theorem targets_of_sound {wrong : String → Error} (hs : s.WellFormed) (hc : s.tree.chain path = .ok c)
    (h : firstFault [s.targetFault path, s.directoryFault wrong path] = none) :
    ∃ d n, s.tree.Targets c d n ∧ n.isDirectory := by
  rw [firstFault_cons, firstFault_singleton, targetFault, directoryFault, chainFault_of_chain hc,
    chainFault_of_chain hc, Option.or_eq_none_iff] at h
  obtain ⟨hmissing, hkind⟩ := h
  rcases target_or_missing hs hc with hlast | ⟨d, n, ht⟩
  · rw [hlast] at hmissing; cases hmissing
  · refine ⟨d, n, ht, ?_⟩
    rw [ht.1, Option.bind_some, ht.2, Option.bind_some] at hkind
    by_contra hdir
    rw [if_neg hdir] at hkind; cases hkind

/-! ## Reports -/

theorem faultsRead (hs : s.WellFormed) (path name : String) : s.FaultsRead path name where
  notEnabled := by
    intro e h
    unfold nameFault at h
    by_cases hname : name ∈ s.registry.enabledNames
    · rw [if_pos hname] at h; cases h
    · rw [if_neg hname] at h; cases h; exact ⟨rfl, rfl⟩
  refused := by
    intro mode e h
    unfold lockFault at h
    cases hl : s.lock.acquire mode with
    | ok lock => rw [hl] at h; cases h
    | error why => rw [hl] at h; cases h; rfl
  noPath := by
    intro e h
    rcases Path.normalize_error (fault?_eq_some_iff.1 h) with rfl | rfl
    · exact ⟨rfl, rfl⟩
    · exact ⟨rfl, rfl⟩
  denied := by
    intro use e
    unfold accessFault
    rw [chainFault_eq_some_iff]
    by_cases hp : s.config.permissions
    · simp only [hp, if_true, true_and, fault?_eq_some_iff]
    · simp [hp]
  missing := by
    intro e h
    obtain ⟨c, hc, hfault⟩ := chainFault_eq_some_iff.1 h
    cases hlast : c.last? with
    | some d => rw [hlast] at hfault; cases hfault
    | none =>
      rw [hlast] at hfault; cases hfault
      obtain ⟨names, hp, rfl⟩ := Tree.chain_eq_ok_iff.1 hc
      exact ⟨by rw [Tree.lookup_of_chain hc, hlast], rfl, names, hp, rfl⟩
  noDirectory := by
    intro wrong hwrong e h
    obtain ⟨c, hc, hfault⟩ := chainFault_eq_some_iff.1 h
    rcases target_or_missing hs hc with hlast | ⟨d, n, ht⟩
    · rw [hlast] at hfault; cases hfault
    · rw [ht.1, Option.bind_some, ht.2, Option.bind_some] at hfault
      by_cases hdir : n.isDirectory
      · rw [if_pos hdir] at hfault; cases hfault
      · rw [if_neg hdir] at hfault; cases hfault
        obtain ⟨names, hp, rfl⟩ := Tree.chain_eq_ok_iff.1 hc
        have hlookup : s.tree.lookup path = .ok (some d) := by rw [Tree.lookup_of_chain hc, ht.1]
        have htype : n.kind.type = .file ∨ n.kind.type = .link := by
          unfold Node.isDirectory at hdir
          cases htype : n.kind.type with
          | directory => rw [htype] at hdir; exact absurd rfl hdir
          | file => exact Or.inl rfl
          | link => exact Or.inr rfl
        refine ⟨⟨d, n, hlookup, ht.2, htype⟩, ?_⟩
        simp only [List.mem_cons, List.not_mem_nil, or_false] at hwrong
        rcases hwrong with rfl | rfl
        · exact ⟨rfl, names, hp, rfl⟩
        · exact ⟨rfl, names, hp, rfl⟩

end Session

/-- **What is in force can only be hidden by damage**: the deciding node is a directory, and its policy
attribute cannot be read. -/
theorem Tree.inForce_error {t : Tree} {r : Registry} {c : Chain} {e : Error} (h : t.inForce r c = .error e) :
    ∃ n a, t.decider? c = some n ∧ n.isDirectory ∧ n.attributes.find? PolicyName.key = some a ∧
      PolicyName.decode a.value = .error e ∧ e.kind = .corruptAttribute := by
  cases hd : t.decider? c with
  | none => rw [inForce_of_no_decider hd] at h; cases h
  | some n =>
    cases hk : n.kind with
    | file raw => rw [inForce_of_file_decider hd hk] at h; cases h
    | link target => rw [inForce_of_link hd (by rw [hk]; rfl)] at h; cases h
    | directory children =>
      have hdir : n.isDirectory := by unfold Node.isDirectory; rw [hk]; rfl
      obtain ⟨a, ha, hforce⟩ := inForce_of_directory_decider hd hdir
      rw [hforce] at h
      cases hdecode : PolicyName.decode a.value with
      | ok name => rw [hdecode] at h; cases h
      | error e' =>
        rw [hdecode] at h; cases h
        exact ⟨n, a, rfl, hdir, ha, hdecode, PolicyName.kind_of_decode_error hdecode⟩

namespace Session

variable {s : Session}

/-! ## The four calls -/

theorem assignPolicy_fails_first (hs : s.WellFormed) (path name : String) (retry : Option RetryToken) :
    FailsFirst (s.nameFault name :: (s.grantFaults .write (some .write) path ++
        [s.targetFault path, s.directoryFault .assignToNonDirectory path]))
      (s.perform (Call.assignPolicy path name retry)).result fun result =>
        ∃ p c d n, p ∈ s.registry.listEnabled ∧ p.name = name ∧ s.tree.chain path = .ok c ∧
          s.tree.Targets c d n ∧ n.isDirectory ∧ result = .ok (s.assigns c d n p) where
  fails := by
    intro e h
    rw [firstFault_cons, firstFault_append, Option.or_eq_some_iff, Option.or_eq_some_iff] at h
    rcases h with hname | ⟨hname, hgrant | ⟨hgrant, htarget⟩⟩
    · rw [perform_assignPolicy_of_notEnabled (require_of_fault hs.registry hname)]
    · obtain ⟨p, -, -, hp⟩ := require_of_sound hs.registry hname
      obtain ⟨seen, hg⟩ := grant_of_fault hgrant
      rw [perform_assignPolicy_of_refused hp hg]
    · obtain ⟨p, -, -, hp⟩ := require_of_sound hs.registry hname
      obtain ⟨c, seen, hc, hg⟩ := grant_of_sound hgrant
      rw [perform_assignPolicy_of_noDirectory hp hg (targetDirectory_of_fault hs hc htarget)]
  otherwise := by
    intro h
    rw [firstFault_cons, firstFault_append, Option.or_eq_none_iff, Option.or_eq_none_iff] at h
    obtain ⟨hname, hgrant, htarget⟩ := h
    obtain ⟨p, hmem, hpname, hp⟩ := require_of_sound hs.registry hname
    obtain ⟨c, seen, hc, hg⟩ := grant_of_sound hgrant
    obtain ⟨d, n, ht, hdir⟩ := targets_of_sound hs hc htarget
    refine ⟨p, c, d, n, hmem, hpname, hc, ht, hdir, ?_⟩
    rw [perform_assignPolicy_of_directory hp hg ht hdir]

theorem unassignPolicy_fails_first (hs : s.WellFormed) (path : String) (retry : Option RetryToken) :
    FailsFirst (s.grantFaults .write (some .write) path ++
        [s.targetFault path, s.directoryFault .unassignFromNonDirectory path])
      (s.perform (Call.unassignPolicy path retry)).result fun result =>
        ∃ c d n, s.tree.chain path = .ok c ∧ s.tree.Targets c d n ∧ n.isDirectory ∧
          result = .ok (s.unassigns c d n) where
  fails := by
    intro e h
    rw [firstFault_append, Option.or_eq_some_iff] at h
    rcases h with hgrant | ⟨hgrant, htarget⟩
    · obtain ⟨seen, hg⟩ := grant_of_fault hgrant
      rw [perform_unassignPolicy_of_refused hg]
    · obtain ⟨c, seen, hc, hg⟩ := grant_of_sound hgrant
      rw [perform_unassignPolicy_of_noDirectory hg (targetDirectory_of_fault hs hc htarget)]
  otherwise := by
    intro h
    rw [firstFault_append, Option.or_eq_none_iff] at h
    obtain ⟨hgrant, htarget⟩ := h
    obtain ⟨c, seen, hc, hg⟩ := grant_of_sound hgrant
    obtain ⟨d, n, ht, hdir⟩ := targets_of_sound hs hc htarget
    refine ⟨c, d, n, hc, ht, hdir, ?_⟩
    rw [perform_unassignPolicy_of_directory hg ht hdir]
    cases n.attributes.find? PolicyName.key <;> rfl

theorem policyInForce_fails_first (s : Session) (path : String) :
    FailsFirst (s.grantFaults .read (some .read) path ++ [s.targetFault path])
      (s.perform (Call.policyInForce path)).result fun result =>
        ∃ c, s.tree.chain path = .ok c ∧ result = s.tree.inForce s.registry c where
  fails := by
    intro e h
    rw [firstFault_append, firstFault_singleton, Option.or_eq_some_iff] at h
    rcases h with hgrant | ⟨hgrant, htarget⟩
    · obtain ⟨seen, hg⟩ := grant_of_fault hgrant
      rw [perform_policyInForce_of_refused hg]
    · obtain ⟨c, seen, hc, hg⟩ := grant_of_sound hgrant
      rw [targetFault, chainFault_of_chain hc] at htarget
      rw [perform_policyInForce_of_granted hg]
      by_cases hlast : c.last?.isNone
      · rw [if_pos hlast] at htarget ⊢; cases htarget; rfl
      · rw [if_neg hlast] at htarget; cases htarget
  otherwise := by
    intro h
    rw [firstFault_append, firstFault_singleton, Option.or_eq_none_iff] at h
    obtain ⟨hgrant, htarget⟩ := h
    obtain ⟨c, seen, hc, hg⟩ := grant_of_sound hgrant
    rw [targetFault, chainFault_of_chain hc] at htarget
    rw [perform_policyInForce_of_granted hg]
    by_cases hlast : c.last?.isNone
    · rw [if_pos hlast] at htarget; cases htarget
    · exact ⟨c, hc, by rw [if_neg hlast]⟩

theorem isCovered_fails_first (s : Session) (path : String) :
    FailsFirst (s.grantFaults .read none path) (s.perform (Call.isCovered path)).result fun result =>
      ∃ c, s.tree.chain path = .ok c ∧ result = (s.tree.inForce s.registry c).map Option.isSome where
  fails := by
    intro e h
    obtain ⟨seen, hg⟩ := grant_of_fault h
    rw [perform_isCovered_of_refused hg]
  otherwise := by
    intro h
    obtain ⟨c, seen, hc, hg⟩ := grant_of_sound h
    refine ⟨c, hc, ?_⟩
    rw [perform_isCovered_of_granted hg]
    rfl

/-- **Each of the four calls fails with the first fault of its list that applies**, whatever else is wrong, in
every session that steps lead to. To assign a policy, its name must be enabled, the lock granted, the path
followed, and the access permitted, and the target must be there and a directory; the attribute is then
replaced if there is one, and created otherwise. Taking a policy away is the same but for the name. A question
for the policy in force needs the lock, the path, the permission to read and the target, and whether there is
one needs the lock and the path. The answer can then only be hidden by damage to the attribute that decides. -/
theorem calls_fail_first (hs : s.Reachable) (path name : String) (retry : Option RetryToken) :
    s.FaultsRead path name ∧
      FailsFirst [s.nameFault name, s.lockFault .write, pathFault path, s.accessFault .write path,
          s.targetFault path, s.directoryFault .assignToNonDirectory path]
        (s.perform (Call.assignPolicy path name retry)).result (fun result =>
          ∃ p c d n, p ∈ s.registry.listEnabled ∧ p.name = name ∧ s.tree.chain path = .ok c ∧
            s.tree.Targets c d n ∧ n.isDirectory ∧ result = .ok (s.assigns c d n p) ∧
            (s.assigns c d n p).assignment = ⟨p, [PolicyName.toAttribute name],
              if (s.tree.attribute? d PolicyName.key).isSome then .replace else .create⟩) ∧
      FailsFirst [s.lockFault .write, pathFault path, s.accessFault .write path, s.targetFault path,
          s.directoryFault .unassignFromNonDirectory path]
        (s.perform (Call.unassignPolicy path retry)).result (fun result =>
          ∃ c d n, s.tree.chain path = .ok c ∧ s.tree.Targets c d n ∧ n.isDirectory ∧
            result = .ok (s.unassigns c d n)) ∧
      FailsFirst [s.lockFault .read, pathFault path, s.accessFault .read path, s.targetFault path]
        (s.perform (Call.policyInForce path)).result (fun result =>
          ∃ c, s.tree.chain path = .ok c ∧ result = s.tree.inForce s.registry c) ∧
      FailsFirst [s.lockFault .read, pathFault path]
        (s.perform (Call.isCovered path)).result (fun result =>
          ∃ c, s.tree.chain path = .ok c ∧ result = (s.tree.inForce s.registry c).map Option.isSome) ∧
      ∀ r c e, s.tree.inForce r c = .error e → ∃ n a, s.tree.decider? c = some n ∧ n.isDirectory ∧
        n.attributes.find? PolicyName.key = some a ∧ PolicyName.decode a.value = .error e ∧
        e.kind = .corruptAttribute := by
  have hw := hs.wellFormed
  have hassign := assignPolicy_fails_first hw path name retry
  refine ⟨faultsRead hw path name, ⟨hassign.fails, fun h => ?_⟩, unassignPolicy_fails_first hw path retry,
    s.policyInForce_fails_first path, s.isCovered_fails_first path, fun r c e => Tree.inForce_error⟩
  obtain ⟨p, c, d, n, hmem, hname, hc, ht, hdir, hresult⟩ := hassign.otherwise h
  refine ⟨p, c, d, n, hmem, hname, hc, ht, hdir, hresult, ?_⟩
  rw [Tree.attribute?, ht.2, Option.bind_some, ← hname]
  rfl

/-- A session with directories and a file, in which nothing at `/f` may be written. -/
def shielded : Session :=
  ({ initial with checker := DenyRule.checker ⟨.write, some ["/f"], .accessDenied⟩ }.run [
    .change (.makeDirectories "/a/b"),
    .change (.makeDirectory "/c"),
    .change (.makeFile "/f" 3)]).2

theorem reachable_shielded : shielded.Reachable := Reachable.run _ (.start (start_default _))

/-- The name comes before the permission, the permission before the file, and the lock before the path; a
missing target has its canonical path, and a directory is given its policy. -/
theorem calls_fail_first_shielded :
    let held : Session := { shielded with lock := .shared 1 }
    shielded.Reachable ∧ held.Reachable ∧
      (shielded.perform (Call.assignPolicy "/f" "XOR-2-1-1024k" none)).result =
        .error (.policyNotEnabled "XOR-2-1-1024k" ["RS-6-3-1024k"]) ∧
      (shielded.perform (Call.unassignPolicy "//f" none)).result = .error (.denied .accessDenied "/f") ∧
      (held.perform (Call.unassignPolicy "f" none)).result = .error (.lockRefused .held) ∧
      (held.perform (Call.isCovered "f")).result = .error (.relativePath "f") ∧
      (held.perform (Call.policyInForce "/f/./x/")).result = .error (.targetMissing "/f/x") ∧
      ∃ o, (shielded.perform (Call.assignPolicy "/a" "RS-6-3-1024k" none)).result = .ok o := by
  intro held
  have hs := reachable_shielded
  have hlocked : shielded.lock.acquire .read = .ok (.shared 1) := rfl
  have hheld : held.Reachable := hs.hold hlocked
  obtain ⟨-, hname, -⟩ := calls_fail_first hs "/f" "XOR-2-1-1024k" none
  obtain ⟨-, -, hdenied, -⟩ := calls_fail_first hs "//f" "" none
  obtain ⟨-, -, hlock, -, hpath, -⟩ := calls_fail_first hheld "f" "" none
  obtain ⟨-, -, -, hmissing, -⟩ := calls_fail_first hheld "/f/./x/" "" none
  obtain ⟨-, hgiven, -⟩ := calls_fail_first hs "/a" "RS-6-3-1024k" none
  obtain ⟨p, c, d, n, -, -, -, -, -, hok, -⟩ := hgiven.otherwise rfl
  exact ⟨hs, hheld, hname.fails _ rfl, hdenied.fails _ rfl, hlock.fails _ rfl, hpath.fails _ rfl,
    hmissing.fails _ rfl, _, hok⟩

end Session

end PolicyTree
