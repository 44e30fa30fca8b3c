import PolicyTree.Proofs.Effects
import PolicyTree.Proofs.History
import PolicyTree.Proofs.Namespace

/-!
# The namespace only grows

Whatever is done to a session, a node stays the node that it is, and a path that leads to it leads to it for
good. Ids and chains can therefore be held on to while the lock is given back.

* `Node.Persists`: what a node keeps, its entries included.
* `Extends.child?`, `Extends.getElem?_trail`: **what a name and what a list of names lead to stays**, and
  `Extends.chain_of_target`: a path to a node keeps its chain.
* `Tree.HoldsGood`: what a chain that was found earlier is good for later.
* `namespace_stable`: **all of this for any two sessions of a history**, and whatever happens in between.
-/

namespace PolicyTree

/-- **A node is the same one later.** What it holds it goes on to hold, under the same names. -/
structure Node.Persists (n n' : Node) : Prop where
  id : n'.id = n.id
  name : n'.name = n.name
  parent : n'.parent = n.parent
  type : n'.kind.type = n.kind.type
  /-- A file keeps its policy id. -/
  rawPolicyId? : n'.rawPolicyId? = n.rawPolicyId?
  policyId? : n'.policyId? = n.policyId?
  /-- A link points where it pointed. -/
  target? : n'.target? = n.target?
  child? : ∀ name id, n.child? name = some id → n'.child? name = some id
  entries : ∀ children, n.children? = some children →
    ∃ children', n'.children? = some children' ∧ children.toList ⊆ children'.toList

/-- A node keeps its kind, or it is a directory all the time. -/
theorem Node.Continues.kind_cases {n n' : Node} (h : n.Continues n') :
    n'.kind = n.kind ∨ ∃ children children', n.kind = .directory children ∧ n'.kind = .directory children' := by
  by_cases hdir : n.isDirectory
  · obtain ⟨children, hk⟩ := Node.kind_of_directory hdir
    obtain ⟨children', hk'⟩ := Node.kind_of_directory (h.isDirectory.trans hdir)
    exact Or.inr ⟨children, children', hk, hk'⟩
  · exact Or.inl (h.kind hdir)

namespace Tree

/-- **A chain that was found for a path holds good in a later tree.** -/
structure HoldsGood (t t' : Tree) (path : String) (c : Chain) : Prop where
  /-- A new chain of the path differs at most where an entry was missing. -/
  renewed : ∃ c', t'.chain path = .ok c' ∧ c'.path = c.path ∧ c'.entries.length = c.entries.length ∧
    ∀ i id : NodeId, c.entries[i]? = some (some id) → c'.entries[i]? = some (some id)
  /-- All nodes on it are still there, at the paths that they had. -/
  met : ∀ id, some id ∈ c.entries → ∃ n n', t.node? id = some n ∧ t'.node? id = some n' ∧ n.Persists n' ∧
    t'.pathOf id = t.pathOf id
  /-- If it leads to a node, it is still the chain of the path. -/
  found : ∀ d, c.last? = some d → t'.chain path = .ok c ∧ t'.pathOf d = c.path
  /-- No node but its target is written through it. -/
  written : ∀ j, c.last? ≠ some j → (∀ p, (stateAfter (assign c p) t').node? j = t'.node? j) ∧
    (stateAfter (unassign c) t').node? j = t'.node? j
  /-- No node but its target is shown through it. -/
  shown : ∀ r status, t'.status r c = .ok status → c.last? = some status.id ∧
    status.path = t'.pathOf status.id

variable {t t' : Tree} {id dir d : NodeId} {n n' : Node} {name path : String} {c : Chain}

/-! ## Names -/

namespace Extends

/-- **What a name leads to stays.** -/
theorem child? (h : t.Extends t') (ht : t.WellFormed) (ht' : t'.WellFormed)
    (hc : t.child? dir name = some id) : t'.child? dir name = some id := by
  obtain ⟨n, hn, hp, hname⟩ := ht.child_iff.1 hc
  obtain ⟨n', hn', hcont⟩ := h hn
  exact ht'.child_iff.2 ⟨n', hn', hcont.parent.trans hp, hcont.name.trans hname⟩

/-- **What a list of names leads to stays**, entry by entry. -/
theorem getElem?_trail (h : t.Extends t') (ht : t.WellFormed) (ht' : t'.WellFormed) :
    ∀ (names : List String) (here here' : Option NodeId) (i : Nat), (∀ id, here = some id → here' = some id) →
      ∀ id, (t.trail here names)[i]? = some (some id) → (t'.trail here' names)[i]? = some (some id) := by
  intro names
  induction names with
  | nil =>
    intro here here' i hhere id hi
    cases i with
    | zero => exact congrArg some (hhere id (Option.some.inj hi))
    | succ i => cases hi
  | cons name rest ih =>
    intro here here' i hhere id hi
    cases i with
    | zero => exact congrArg some (hhere id (Option.some.inj hi))
    | succ i =>
      -- one name further, what was there is still there
      have hnext : ∀ id, here.bind (t.child? · name) = some id → here'.bind (t'.child? · name) = some id := by
        intro id hid
        obtain ⟨dir, hdir, hc⟩ := Option.bind_eq_some_iff.1 hid
        rw [hhere dir hdir, Option.bind_some]
        exact h.child? ht ht' hc
      rw [trail, List.getElem?_cons_succ] at hi ⊢
      exact ih _ _ i hnext id hi

/-- **A path to a node keeps its chain.** -/
theorem chain_of_target (h : t.Extends t') (ht : t.WellFormed) (ht' : t'.WellFormed)
    (hc : t.chain path = .ok c) (hd : c.last? = some d) : t'.chain path = .ok c := by
  have hlineage := ht.entries_of_target hc hd
  obtain ⟨names, hp, rfl⟩ := chain_eq_ok_iff.1 hc
  -- no entry is missing, so none can be other than it was
  have hsame : t'.trail (some root) names = t.trail (some root) names := by
    refine List.ext_getElem? fun i => ?_
    by_cases hi : i < (t.trail (some root) names).length
    · obtain ⟨e, he⟩ : ∃ e, (t.trail (some root) names)[i]? = some e := ⟨_, List.getElem?_eq_getElem hi⟩
      have hmem : e ∈ (t.lineage d).map some := hlineage ▸ List.mem_of_getElem? he
      obtain ⟨id, -, rfl⟩ := List.mem_map.1 hmem
      rw [he]
      exact h.getElem?_trail ht ht' names _ _ i (fun _ hroot => hroot) id he
    · have hi' : ¬i < (t'.trail (some root) names).length := by rwa [length_trail] at hi ⊢
      rw [List.getElem?_eq_none (Nat.le_of_not_lt hi), List.getElem?_eq_none (Nat.le_of_not_lt hi')]
  exact chain_eq_ok_iff.2 ⟨names, hp, by rw [hsame]⟩

/-! ## Nodes -/

/-- **A node that goes on is the same one.** -/
theorem persists (h : t.Extends t') (ht : t.WellFormed) (ht' : t'.WellFormed) (hn : t.node? id = some n) :
    ∃ n', t'.node? id = some n' ∧ n.Persists n' := by
  obtain ⟨n', hn', hcont⟩ := h hn
  have hkind := hcont.kind_cases
  have hraw : n'.rawPolicyId? = n.rawPolicyId? := by
    unfold Node.rawPolicyId?
    rcases hkind with hk | ⟨children, children', hk, hk'⟩
    · rw [hk]
    · rw [hk, hk']
  refine ⟨n', hn', ⟨hcont.id, hcont.name, hcont.parent, ?_, hraw, ?_, ?_, ?_, ?_⟩⟩
  · rcases hkind with hk | ⟨children, children', hk, hk'⟩
    · rw [hk]
    · rw [hk, hk']; rfl
  · rw [Node.policyId?, hraw, Node.policyId?]
  · unfold Node.target?
    rcases hkind with hk | ⟨children, children', hk, hk'⟩
    · rw [hk]
    · rw [hk, hk']
  · intro name j hj
    have hc : t.child? id name = some j := by rw [Tree.child?, hn, Option.bind_some, hj]
    have hc' := h.child? ht ht' hc
    rwa [Tree.child?, hn', Option.bind_some] at hc'
  · intro children hchildren
    rcases hkind with hk | ⟨entries, entries', hk, hk'⟩
    · refine ⟨children, ?_, fun entry he => he⟩
      rw [← hchildren, Node.children?, hk, Node.children?]
    · rw [Node.children?, hk] at hchildren
      cases hchildren
      refine ⟨entries', by rw [Node.children?, hk'], ?_⟩
      rintro ⟨name, j⟩ hj
      -- the node of an entry goes on, and it lies where it lay
      obtain ⟨m, hm, hp, hname⟩ := (ht.mem_children_iff hn hk).1 hj
      obtain ⟨m', hm', hcont'⟩ := h hm
      exact (ht'.mem_children_iff hn' hk').2 ⟨m', hm', hcont'.parent.trans hp, hcont'.name.trans hname⟩

/-- **No id is given up**, so the tree does not shrink. -/
theorem size_le (h : t.Extends t') : t.size ≤ t'.size := by
  by_contra hlt
  obtain ⟨n, hn⟩ := exists_node?_iff.2 (Nat.lt_of_not_le hlt)
  obtain ⟨n', hn', -⟩ := h hn
  exact Nat.lt_irrefl _ (node?_lt hn')

end Extends

/-! ## Chains that are held on to -/

/-- An action that writes the attributes of a chain's target, or fails, leaves all other nodes alone. -/
theorem node?_stateAfter {α : Type} {action : Edit α} {wrong : Error}
    (hdone : ∀ d n, t.Targets c d n → n.isDirectory → ∃ a s, action.run t = .ok a (t.setAttributes d s))
    (hfailed : ∀ e, t.targetDirectory c wrong = .error e → action.run t = .error e t) (hid : c.last? ≠ some id) :
    (stateAfter action t).node? id = t.node? id := by
  unfold stateAfter
  rcases t.directory_or_error c wrong with ⟨d, n, ht, hdir⟩ | ⟨e, he⟩
  · obtain ⟨a, s, hrun⟩ := hdone d n ht hdir
    have hne : d ≠ id := fun heq => hid (heq ▸ ht.1)
    rw [hrun]
    exact node?_setAttributes_of_ne hne s
  · rw [hfailed e he]

/-- **A chain that was found holds good in every tree that goes on.** -/
theorem Extends.holdsGood (h : t.Extends t') (ht : t.WellFormed) (ht' : t'.WellFormed)
    (hc : t.chain path = .ok c) : t.HoldsGood t' path c where
  renewed := by
    obtain ⟨names, hp, rfl⟩ := chain_eq_ok_iff.1 hc
    refine ⟨⟨Path.join names, t'.trail (some root) names⟩, chain_eq_ok_iff.2 ⟨names, hp, rfl⟩, rfl, ?_, ?_⟩
    · rw [length_trail, length_trail]
    · intro i id hi
      exact h.getElem?_trail ht ht' names _ _ i (fun _ hroot => hroot) id hi
  met := by
    intro id hid
    obtain ⟨names, -, rfl⟩ := chain_eq_ok_iff.1 hc
    obtain ⟨r, hr, -⟩ := ht.rooted
    obtain ⟨n, hn⟩ := ht.node?_of_mem_trail names root ⟨r, hr⟩ hid
    obtain ⟨n', hn', hpersists⟩ := h.persists ht ht' hn
    exact ⟨n, n', hn, hn', hpersists, h.pathOf ht hn⟩
  found := by
    intro d hd
    have hc' := h.chain_of_target ht ht' hc hd
    exact ⟨hc', (ht'.path_of_target hc' hd).symm⟩
  written := by
    intro j hj
    refine ⟨fun p => ?_, ?_⟩
    · exact node?_stateAfter (fun d n ht hdir => ⟨_, _, run_assign ht hdir p⟩)
        (fun e he => run_assign_of_error he p) hj
    · exact node?_stateAfter (fun d n ht hdir => ⟨_, _, run_unassign ht hdir⟩)
        (fun e he => run_unassign_of_error he) hj
  shown := by
    intro r status hstatus
    rcases t'.targets_or_missing c with ⟨d, n, htarget⟩ | hmissing
    · rw [status_of_targets htarget] at hstatus
      cases hstatus
      have hid : n.id = d := ht'.id_eq htarget.2
      have hpath := ht'.path_of_target (h.chain_of_target ht ht' hc htarget.1) htarget.1
      exact ⟨htarget.1.trans (congrArg some hid.symm), by rw [statusAt, hid, hpath]⟩
    · rw [Tree.status, hmissing] at hstatus
      cases hstatus

end Tree

namespace Session

/-- **The namespace only grows.** Of any two sessions of a history that starts with an empty tree, the later
one has every node of the earlier one: with its id, its name, its parent and its type, a file with its policy
id and a link with its target, and a directory with all its entries, none of which leads elsewhere. The size
never falls. A path has the same chain later, but that entries may be there that were missing; so a chain that
was found earlier can be used later. It shows and changes no other node than the one that it led to, and none
if it led to none. -/
theorem namespace_stable {config : Config} {lock : Lock} {checker : Checker} {log : AuditTrail}
    {start s s' : Session} {past later : List (Session × Step)}
    (hstart : Session.start config lock checker log = .ok start) (hpast : History start past s)
    (hlater : History s later s') :
    (∀ id n, s.tree.node? id = some n → ∃ n', s'.tree.node? id = some n' ∧ n.Persists n') ∧
      s.tree.size ≤ s'.tree.size ∧
      ∀ path, (Path.normalize path).isOk →
        ∃ c, s.tree.chain path = .ok c ∧ s.tree.HoldsGood s'.tree path c := by
  obtain ⟨hregistry, hempty, -⟩ := start_ok hstart
  have hw : s.WellFormed := hpast.wellFormed ⟨hempty ▸ Tree.WellFormed.empty, hregistry⟩
  have hw' : s'.WellFormed := hlater.wellFormed hw
  have hext : s.tree.Extends s'.tree := hlater.tree_extends
  refine ⟨fun id n hn => hext.persists hw.tree hw'.tree hn, hext.size_le, fun path hpath => ?_⟩
  obtain ⟨c, hc⟩ := s.tree.chain_of_isOk hpath
  exact ⟨c, hc, hext.holdsGood hw.tree hw'.tree hc⟩

/-- A chain to nothing, held on to while its place is taken; the file beside it stays. -/
theorem namespace_stable_furnished :
    let later := (furnished.run [
      .change (.makeDirectories "/b/a/y"),
      .withLock .read [.change (.makeDirectory "/b/z")],
      .change (.makeDirectories "/b/x/y"),
      .assignPolicy "/b/x" "RS-6-3-1024k" none]).2
    let c : Chain := ⟨"/b/x", [some 0, some 1, none]⟩
    Session.start .default .free .allowAll (.keeping []) = .ok initial ∧
      (∃ past, History initial past furnished) ∧ (∃ past, History furnished past later) ∧
      furnished.tree.chain "/b//x" = .ok c ∧
      later.tree.chain "/b/x" = .ok ⟨"/b/x", [some 0, some 1, some 6]⟩ ∧
      (∀ p, (stateAfter (Tree.assign c p) later.tree).node? 6 = later.tree.node? 6) ∧
      ∃ n', later.tree.node? 3 = some n' ∧ n'.parent = some 1 ∧ n'.rawPolicyId? = some 3 := by
  intro later c
  obtain ⟨past, hpast, -⟩ := history_run initial [
    .change (.makeDirectories "/b/c"),
    .change (.makeFile "/b/a" 3),
    .change (.makeLink "/é" "/b"),
    .change (.makeDirectory "/a"),
    .change (.makeFile "/b/a/x" 3),
    .change (.putAttribute 3 ⟨"user.x", [1]⟩ .create)]
  obtain ⟨past', hlater, -⟩ := history_run furnished [
    .change (.makeDirectories "/b/a/y"),
    .withLock .read [.change (.makeDirectory "/b/z")],
    .change (.makeDirectories "/b/x/y"),
    .assignPolicy "/b/x" "RS-6-3-1024k" none]
  obtain ⟨hnodes, -, hchains⟩ := namespace_stable start_initial hpast hlater
  have hc : furnished.tree.chain "/b//x" = .ok c := rfl
  obtain ⟨c', hc', hgood⟩ := hchains "/b//x" rfl
  cases hc.symm.trans hc'
  obtain ⟨n', hn', hpersists⟩ := hnodes 3 _ rfl
  exact ⟨start_initial, ⟨past, hpast⟩, ⟨past', hlater⟩, hc, rfl, (hgood.written 6 nofun).1, n', hn',
    hpersists.parent, hpersists.rawPolicyId?⟩

end Session

end PolicyTree
