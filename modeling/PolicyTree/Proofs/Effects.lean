import PolicyTree.Proofs.Moves
import PolicyTree.Proofs.Verdicts

/-!
# The effect of a change on every path

* `assignPolicy_effect`: **giving a directory a policy puts it in force on exactly the chains that the
  directory governs**; all others, damaged ones included, are as they were.
* `unassignPolicy_effect`: **taking it away leaves these chains to the directory above**, and all others
  as they were.
-/

namespace PolicyTree

variable {t : Tree} {r : Registry} {c : Chain} {d : NodeId} {n : Node} {p : Policy} {path name : String}

namespace Tree

theorem last?_of_lookup {id : Option NodeId} (h : t.lookup path = .ok id) (hc : t.chain path = .ok c) :
    c.last? = id := by
  rw [lookup_of_chain hc] at h
  exact Except.ok.inj h

theorem chain_of_isOk (t : Tree) (h : (Path.normalize path).isOk) : ∃ c, t.chain path = .ok c := by
  unfold chain
  cases hp : Path.normalize path with
  | error e => rw [hp] at h; cases h
  | ok names => exact ⟨_, rfl⟩

/-- The target of a chain governs it. -/
theorem governs_of_target (h : c.last? = some d) : t.Governs d c := by
  have hl : c.entries.getLast? = some (some d) := Option.join_eq_some_iff.1 h
  obtain ⟨above, ha⟩ := List.getLast?_eq_some_iff.1 hl
  exact ⟨above, [], ha, fun e he => by cases he⟩

/-- Other attributes on one node, seen from every path: a governed chain gets one answer, and on all
others the answer is as it was. -/
theorem effect_setAttributes (t : Tree) (d : NodeId) (s : AttributeSet) (r : Registry)
    {v : Except Error (Option Policy)}
    (hv : ∀ {q c}, t.chain q = .ok c → t.Governs d c → (t.setAttributes d s).inForce r c = v) (q : String)
    (hq : (Path.normalize q).isOk) :
    ∃ c, t.chain q = .ok c ∧ (t.setAttributes d s).chain q = .ok c ∧
      (t.Governs d c → (t.setAttributes d s).inForce r c = v) ∧
      (¬t.Governs d c → (t.setAttributes d s).inForce r c = t.inForce r c) := by
  obtain ⟨c, hc⟩ := t.chain_of_isOk hq
  have hc' : (t.setAttributes d s).chain q = .ok c := by
    rw [(sameShape_setAttributes t d s).chain q, hc]
  exact ⟨c, hc, hc', hv hc, fun hg => inForce_setAttributes_of_not_governs hg s⟩

/-- What a directory says once it is given an enabled policy. -/
theorem verdict?_assigned (hn : t.node? d = some n) (hd : n.isDirectory)
    (hp : r.enabledNamed? p.name = some p) (hlen : (Text.utf8 p.name).length < 2 ^ 31) :
    (t.assigned d n p).verdict? r (some d) = some (.ok (some p)) := by
  have hv := Node.verdict?_of_directory (r := r)
    (n := { n with attributes := n.attributes.put (PolicyName.toAttribute p.name) }) hd
  unfold verdict? assigned
  rw [Option.bind_some, node?_setAttributes_self hn, Option.bind_some, hv,
    AttributeSet.find?_put_policy, Option.map_some,
    PolicyName.ofAttribute_toAttribute hlen]
  simp only [Except.map, hp]

/-- A directory has no say once its policy is taken away. -/
theorem silent_unassigned (ht : t.WellFormed) (hn : t.node? d = some n) (hd : n.isDirectory) :
    (t.unassigned d n).Silent (some d) := by
  intro m hm
  rw [Option.bind_some, unassigned, node?_setAttributes_self hn] at hm
  cases hm
  refine ⟨hd, ?_⟩
  rw [(ht.distinct hn).find?_erase, if_pos rfl]

end Tree

namespace Session

variable {s s' : Session} {retry : Option RetryToken} {events : List Event}

/-- A session with damaged policy attributes on the root and on a directory in it, which holds another. -/
def damaged : Session :=
  { initial with tree := ⟨[
      { id := 0, name := "", parent := none, kind := .directory ⟨[("a", 1)]⟩,
        attributes := ⟨[⟨PolicyName.key, [7]⟩]⟩ },
      { id := 1, name := "a", parent := some 0, kind := .directory ⟨[("b", 2)]⟩,
        attributes := ⟨[⟨"user.x", [1]⟩, ⟨PolicyName.key, []⟩]⟩ },
      { id := 2, name := "b", parent := some 1, kind := .emptyDirectory }]⟩ }

theorem reachable_damaged : damaged.Reachable := by
  have hrun : (initial.run [
      .change (.makeDirectories "/a/b"),
      .change (.putAttribute 0 ⟨PolicyName.key, [7]⟩ .create),
      .change (.putAttribute 1 ⟨"user.x", [1]⟩ .create),
      .change (.putAttribute 1 ⟨PolicyName.key, []⟩ .create)]).2 = damaged := rfl
  exact hrun ▸ reachable_initial.run _

theorem targets_damaged :
    damaged.tree.Targets ⟨"/a", [some 0, some 1]⟩ 1
      { id := 1, name := "a", parent := some 0, kind := .directory ⟨[("b", 2)]⟩,
        attributes := ⟨[⟨"user.x", [1]⟩, ⟨PolicyName.key, []⟩]⟩ } := ⟨rfl, rfl⟩

theorem grant_damaged : damaged.grant .write (some .write) "/a/" =
    (.ok ⟨"/a", [some 0, some 1]⟩, [.acquire .write, .check .write "/a", .release .write]) := rfl

theorem chain_root_damaged : damaged.tree.chain "/" = .ok ⟨"/", [some 0]⟩ := rfl

theorem chain_below_damaged :
    damaged.tree.chain "/a//x/../b/c" = .ok ⟨"/a/b/c", [some 0, some 1, some 2, none]⟩ := rfl

/-- The directory governs what is below it, be it there or not. -/
theorem governs_damaged : damaged.tree.Governs 1 ⟨"/a/b/c", [some 0, some 1, some 2, none]⟩ := by
  refine ⟨[some 0], [some 2, none], rfl, ?_⟩
  intro e he n hn
  rcases List.mem_cons.1 he with rfl | he
  · cases hn; exact ⟨rfl, rfl⟩
  · rw [List.mem_singleton.1 he] at hn; cases hn

theorem not_governs_damaged : ¬damaged.tree.Governs 1 ⟨"/", [some 0]⟩ := by
  rintro ⟨above, below, he, -⟩
  have hm : some 1 ∈ above ++ some 1 :: below := List.mem_append_right _ List.mem_cons_self
  rw [← he] at hm
  cases List.mem_singleton.1 hm

/-- **Giving a directory a policy puts it in force on exactly the chains that the directory governs.**
On all others, and on damaged ones too, the answer is as it was. -/
theorem assignPolicy_effect {o : AssignOutcome} (hs : s.Reachable)
    (hd : s.tree.lookup path = .ok (some d)) (hp : p ∈ s.registry.listEnabled)
    (hlen : (Text.utf8 p.name).length < 2 ^ 31)
    (h : s.perform (Call.assignPolicy path p.name retry) = ⟨.ok o, events, s'⟩) :
    o.assignment.policy = p ∧ o.status.policy = some p ∧
      ∀ q, (Path.normalize q).isOk → ∃ c, s.tree.chain q = .ok c ∧ s'.tree.chain q = .ok c ∧
        (s.tree.Governs d c → s'.tree.inForce s'.registry c = .ok (some p)) ∧
        (¬s.tree.Governs d c → s'.tree.inForce s'.registry c = s.tree.inForce s.registry c) := by
  have hw := hs.wellFormed
  obtain ⟨p', c, d', n, hp', hc, ht, hdir, rfl, rfl⟩ := assignPolicy_ok h
  -- the call has found the same directory and the same policy
  obtain rfl : d' = d := Option.some.inj (ht.1.symm.trans (Tree.last?_of_lookup hd hc))
  obtain rfl : p' = p := Except.ok.inj (hp'.symm.trans (hw.registry.require_name hp))
  have hnamed := hw.registry.enabledNamed?_eq_some_iff.2 ⟨hp, rfl⟩
  have hv := Tree.verdict?_assigned ht.2 hdir hnamed hlen
  have hgoverned : ∀ {q c}, s.tree.chain q = .ok c → s.tree.Governs d' c →
      (s.tree.assigned d' n p').inForce s.registry c = .ok (some p') :=
    fun hc hg => hw.tree.inForce_setAttributes_of_governs hc hg hv
  have hstatus : ((s.tree.assigned d' n p').inForce s.registry c).toOption.join = some p' := by
    rw [hgoverned hc (Tree.governs_of_target ht.1)]; rfl
  exact ⟨rfl, hstatus, s.tree.effect_setAttributes d' _ s.registry hgoverned⟩

/-- A damaged directory is given a policy, and so is all below it; the damaged root stays as it is. -/
theorem assignPolicy_effect_damaged :
    let p : Policy := ⟨1, ⟨"rs", 6, 3⟩, systemCellSize⟩
    damaged.Reachable ∧ damaged.tree.lookup "/a/" = .ok (some 1) ∧ p ∈ damaged.registry.listEnabled ∧
      (Text.utf8 p.name).length < 2 ^ 31 ∧
      ∃ o events s', damaged.perform (Call.assignPolicy "/a/" p.name none) = ⟨.ok o, events, s'⟩ ∧
        s'.tree.inForce s'.registry ⟨"/a/b/c", [some 0, some 1, some 2, none]⟩ = .ok (some p) ∧
        s'.tree.inForce s'.registry ⟨"/", [some 0]⟩ =
          damaged.tree.inForce damaged.registry ⟨"/", [some 0]⟩ := by
  intro p
  have hd : damaged.tree.lookup "/a/" = .ok (some 1) := rfl
  have hp : p ∈ damaged.registry.listEnabled := by decide
  have hlen : (Text.utf8 p.name).length < 2 ^ 31 := by decide
  have hrequire : damaged.registry.require p.name = .ok p := Registry.require_eq_ok_iff.2 (by decide)
  have h : damaged.perform (Call.assignPolicy "/a/" p.name none) = _ :=
    perform_assignPolicy_of_directory hrequire grant_damaged targets_damaged rfl
  have heffect := (assignPolicy_effect reachable_damaged hd hp hlen h).2.2
  obtain ⟨c, hc, -, hgoverned, -⟩ := heffect "/a//x/../b/c" rfl
  obtain ⟨c', hc', -, -, hother⟩ := heffect "/" rfl
  cases chain_below_damaged.symm.trans hc
  cases chain_root_damaged.symm.trans hc'
  exact ⟨reachable_damaged, hd, hp, hlen, _, _, _, h, hgoverned governs_damaged,
    hother not_governs_damaged⟩

/-- **Taking a directory's policy away leaves the chains that it governs to the directory above**, and
all others as they were. What is taken is what was stored, and nothing else of the directory changes. -/
theorem unassignPolicy_effect {o : UnassignOutcome} (hs : s.Reachable)
    (hd : s.tree.lookup path = .ok (some d))
    (h : s.perform (Call.unassignPolicy path retry) = ⟨.ok o, events, s'⟩) :
    ∃ n a?, s.tree.node? d = some n ∧
      n.attributes.toList.filter (·.name = PolicyName.key) = Option.toList a? ∧
      o.removed = a?.map ([·]) ∧
      s'.tree.node? d =
        some { n with attributes := ⟨n.attributes.toList.filter (·.name ≠ PolicyName.key)⟩ } ∧
      o.status.policy = (s.tree.inForceAbove s.registry d).toOption.join ∧
      ∀ q, (Path.normalize q).isOk → ∃ c, s.tree.chain q = .ok c ∧ s'.tree.chain q = .ok c ∧
        (s.tree.Governs d c → s'.tree.inForce s'.registry c = s.tree.inForceAbove s.registry d) ∧
        (¬s.tree.Governs d c → s'.tree.inForce s'.registry c = s.tree.inForce s.registry c) := by
  have hw := hs.wellFormed
  obtain ⟨c, d', n, hc, ht, hdir, rfl, htree, hreg⟩ := unassignPolicy_ok h
  obtain rfl : d' = d := Option.some.inj (ht.1.symm.trans (Tree.last?_of_lookup hd hc))
  have hdistinct := hw.tree.distinct ht.2
  have hsilent := Tree.silent_unassigned hw.tree ht.2 hdir
  have hgoverned : ∀ {q c}, s.tree.chain q = .ok c → s.tree.Governs d' c →
      (s.tree.unassigned d' n).inForce s.registry c = s.tree.inForceAbove s.registry d' :=
    fun hc hg => hw.tree.inForce_setAttributes_of_silent hc hg ht.2 hsilent
  have hstatus : ((s.tree.unassigned d' n).inForce s.registry c).toOption.join =
      (s.tree.inForceAbove s.registry d').toOption.join := by
    rw [hgoverned hc (Tree.governs_of_target ht.1)]
  -- no name occurs twice, so what is found is all that there is
  have hnode : (s.tree.unassigned d' n).node? d' =
      some { n with attributes := ⟨n.attributes.toList.filter (·.name ≠ PolicyName.key)⟩ } := by
    rw [Tree.unassigned, Tree.node?_setAttributes_self ht.2, ← hdistinct.erase_toList]
  refine ⟨n, n.attributes.find? PolicyName.key, ht.2, hdistinct.filter_eq _, rfl, ?_, hstatus, ?_⟩
  · rw [htree, hnode]
  · rw [htree, hreg]
    exact s.tree.effect_setAttributes d' _ s.registry hgoverned

/-- The damaged policy of a directory is taken away, which leaves what is below it to the damaged root. -/
theorem unassignPolicy_effect_damaged :
    damaged.Reachable ∧ damaged.tree.lookup "/a/" = .ok (some 1) ∧
      ∃ o events s', damaged.perform (Call.unassignPolicy "/a/" none) = ⟨.ok o, events, s'⟩ ∧
        s'.tree.inForce s'.registry ⟨"/a/b/c", [some 0, some 1, some 2, none]⟩ =
          damaged.tree.inForceAbove damaged.registry 1 ∧
        s'.tree.inForce s'.registry ⟨"/", [some 0]⟩ =
          damaged.tree.inForce damaged.registry ⟨"/", [some 0]⟩ := by
  have hd : damaged.tree.lookup "/a/" = .ok (some 1) := rfl
  have h : damaged.perform (Call.unassignPolicy "/a/" none) = _ :=
    perform_unassignPolicy_of_directory grant_damaged targets_damaged rfl
  obtain ⟨n, a?, -, -, -, -, -, heffect⟩ := unassignPolicy_effect reachable_damaged hd h
  obtain ⟨c, hc, -, hgoverned, -⟩ := heffect "/a//x/../b/c" rfl
  obtain ⟨c', hc', -, -, hother⟩ := heffect "/" rfl
  cases chain_below_damaged.symm.trans hc
  cases chain_root_damaged.symm.trans hc'
  exact ⟨reachable_damaged, hd, _, _, _, h, hgoverned governs_damaged, hother not_governs_damaged⟩

end Session

end PolicyTree
