import PolicyTree.Proofs.Effects

/-!
# Inheritance along the parents

The policy in force for a path is found by a walk along the path's chain. It can also be said without
chains: a node has the policy that it says itself, and otherwise that of the directory that it lies in.

* `Tree.effective`: the policy of a node by recursion on the parent; `WellFormed.effective_of_silent`:
  the recursion always goes up to an older node.
* `Tree.Deepest`: the last node on a chain. A node that is no directory is the last one on every chain
  that it is on (`deepest_of_not_directory`).
* `inForce_eq_effective`: **the walk along a chain comes to the policy of its deepest node.**
-/

namespace PolicyTree

variable {t : Tree} {r : Registry} {c : Chain} {id d dir : NodeId} {n : Node} {path : String}
  {v : Except Error (Option Policy)}

namespace Tree

/-- **The policy of a node by inheritance.** A file has the policy known under the number that it was made with,
and none under a negative one; a link has none. A directory has the enabled policy that its attribute names, and
without an attribute that of its parent. -/
def effective (t : Tree) (r : Registry) (id : NodeId) : Except Error (Option Policy) :=
  match t.node? id with
  | none => .ok none
  | some n =>
    match n.kind with
    | .file raw => .ok (r.ofFile? raw)
    | .link _ => .ok none
    | .directory _ =>
      match n.attributes.find? PolicyName.key with
      | some a => (PolicyName.decode a.value).map r.enabledNamed?
      | none =>
        match n.parent with
        | none => .ok none
        | some u => if u < id then t.effective r u else .ok none
termination_by id

/-- **The deepest node on a chain**: past its last place there is no node. -/
def Deepest (t : Tree) (d : NodeId) (c : Chain) : Prop :=
  ∃ above below, c.entries = above ++ some d :: below ∧ (t.node? d).isSome ∧
    ∀ e ∈ below, e.bind t.node? = none

/-! ## One node -/

theorem effective_of_verdict (hn : t.node? id = some n) (hv : n.verdict? r = some v) :
    t.effective r id = v := by
  rw [effective, hn]
  cases hk : n.kind with
  | file raw =>
    rw [Node.verdict?_of_file hk, Option.some.injEq] at hv
    simp only [hk, hv]
  | link target =>
    rw [Node.verdict?_of_link (by rw [hk]; rfl), Option.some.injEq] at hv
    simp only [hk, hv]
  | directory children =>
    rw [Node.verdict?_of_directory (by rw [Node.isDirectory, hk]; rfl)] at hv
    obtain ⟨a, ha, rfl⟩ := Option.map_eq_some_iff.1 hv
    -- the attribute that is found has the policy attribute's name
    have hname : a.name = PolicyName.key := AttributeSet.name_of_find? ha
    simp only [hk, ha, PolicyName.ofAttribute, if_pos hname]

/-- A silent node leaves the policy to its parent, which is older. -/
theorem WellFormed.effective_of_silent (ht : t.WellFormed) (hn : t.node? id = some n)
    (hdir : n.isDirectory) (hnone : n.attributes.find? PolicyName.key = none) :
    t.effective r id = match n.parent with
      | none => .ok none
      | some u => t.effective r u := by
  obtain ⟨children, hk⟩ := Node.kind_of_directory hdir
  rw [effective, hn]
  simp only [hk, hnone]
  cases hp : n.parent with
  | none => rfl
  | some u => simp only [if_pos (ht.parent_lt hn hp)]

/-! ## Along a lineage -/

/-- **The nearest verdict on a lineage is what its node inherits.** -/
theorem WellFormed.findSome?_lineage (ht : t.WellFormed) (r : Registry) : ∀ id n, t.node? id = some n →
    (((t.lineage id).map some).reverse.findSome? (t.verdict? r)).getD (.ok none) = t.effective r id := by
  intro id
  induction id using Nat.strongRecOn with
  | ind id ih =>
    intro n hn
    have hself : t.verdict? r (some id) = n.verdict? r := by rw [verdict?, Option.bind_some, hn, Option.bind_some]
    by_cases hid : id = root
    · subst hid
      obtain ⟨m, hm, -, -, hp⟩ := ht.rooted
      rw [hn] at hm; cases hm
      rw [ht.lineage_root.1, List.map_singleton, List.reverse_singleton, List.findSome?_singleton, hself]
      cases hv : n.verdict? r with
      | some v => rw [Option.getD_some, effective_of_verdict hn hv]
      | none =>
        obtain ⟨hdir, hnone⟩ := Node.verdict?_eq_none_iff.1 hv
        rw [ht.effective_of_silent hn hdir hnone, hp, Option.getD_none]
    · -- past a silent node the walk goes on along the lineage of its parent
      obtain ⟨u, m, hu, hlt, hm, -, -⟩ := ht.parent hn hid
      rw [lineage_of_parent hn hu hlt, List.map_append, List.map_singleton, List.reverse_append,
        List.reverse_singleton, List.singleton_append, List.findSome?_cons, hself]
      cases hv : n.verdict? r with
      | some v => rw [Option.getD_some, effective_of_verdict hn hv]
      | none =>
        obtain ⟨hdir, hnone⟩ := Node.verdict?_eq_none_iff.1 hv
        rw [ht.effective_of_silent hn hdir hnone, hu]
        exact ih u hlt m hm

/-! ## Along a chain -/

theorem eq_none_of_mem_trail_none {e : Option NodeId} {names : List String} (he : e ∈ t.trail none names) :
    e = none := by
  cases e with
  | none => rfl
  | some d => exact absurd he (not_mem_trail_none t d names)

/-- From a node on, a trail is a trail of that node. -/
theorem trail_from : ∀ (names : List String) (here : Option NodeId) (above below : List (Option NodeId)),
    t.trail here names = above ++ some d :: below → ∃ rest, t.trail (some d) rest = some d :: below := by
  intro names
  induction names with
  | nil =>
    intro here above below h
    rcases List.append_eq_singleton_iff.1 h.symm with ⟨-, hb⟩ | ⟨-, hb⟩
    · cases hb; exact ⟨[], rfl⟩
    · cases hb
  | cons name rest ih =>
    intro here above below h
    cases above with
    | nil =>
      have hhere : here = some d := (List.cons.inj h).1
      subst hhere
      exact ⟨name :: rest, h⟩
    | cons e above => exact ih _ above below (List.cons.inj h).2

/-- **A node that is no directory is the deepest on every chain that it is on.** -/
theorem deepest_of_not_directory (hc : t.chain path = .ok c) (hd : some d ∈ c.entries)
    (hn : t.node? d = some n) (hdir : ¬n.isDirectory) : t.Deepest d c := by
  obtain ⟨names, -, rfl⟩ := chain_eq_ok_iff.1 hc
  obtain ⟨above, below, he⟩ := List.append_of_mem hd
  obtain ⟨rest, hrest⟩ := trail_from names (some root) above below he
  refine ⟨above, below, he, by rw [hn]; rfl, ?_⟩
  -- no name leads on from it
  cases rest with
  | nil => cases hrest; exact fun e he => by cases he
  | cons name rest =>
    rw [trail, Option.bind_some, child?_of_not_directory hn hdir, List.cons.injEq] at hrest
    intro e he
    rw [← hrest.2] at he
    rw [eq_none_of_mem_trail_none he]
    rfl

namespace WellFormed

variable (ht : t.WellFormed)

include ht

theorem exists_deepest_trail : ∀ (names : List String) (dir : NodeId), (t.node? dir).isSome →
    ∃ above d below, t.trail (some dir) names = above ++ some d :: below ∧ (t.node? d).isSome ∧
      ∀ e ∈ below, e.bind t.node? = none := by
  intro names
  induction names with
  | nil => intro dir hdir; exact ⟨[], dir, [], rfl, hdir, fun e he => by cases he⟩
  | cons name rest ih =>
    intro dir hdir
    rw [trail, Option.bind_some]
    cases hc : t.child? dir name with
    | none =>
      refine ⟨[], dir, _, rfl, hdir, fun e he => ?_⟩
      rw [eq_none_of_mem_trail_none he]
      rfl
    | some child =>
      obtain ⟨m, hm, -, -⟩ := ht.child_iff.1 hc
      obtain ⟨above, d, below, he, hd, hbelow⟩ := ih child (by rw [hm]; rfl)
      exact ⟨some dir :: above, d, below, by rw [he]; rfl, hd, hbelow⟩

theorem exists_deepest (hc : t.chain path = .ok c) : ∃ d, t.Deepest d c := by
  obtain ⟨names, -, rfl⟩ := chain_eq_ok_iff.1 hc
  obtain ⟨n, hn, -⟩ := ht.rooted
  obtain ⟨above, d, below, h⟩ := ht.exists_deepest_trail names root (by rw [hn]; rfl)
  exact ⟨d, above, below, h⟩

/-- **The walk along a chain comes to what its deepest node inherits.** -/
theorem inForce_of_deepest (hc : t.chain path = .ok c) (hd : t.Deepest d c) :
    t.inForce r c = t.effective r d := by
  obtain ⟨above, below, he, hsome, hbelow⟩ := hd
  obtain ⟨n, hn⟩ := Option.isSome_iff_exists.1 hsome
  have he' : c.entries = (above ++ [some d]) ++ below := by rw [he, List.append_assoc]; rfl
  have hsilent : ∀ e ∈ below, t.Silent e := by
    intro e hm n hn
    rw [hbelow e hm] at hn; cases hn
  rw [inForce_of_silent he' hsilent, ht.chain_above hc he]
  exact ht.findSome?_lineage r d n hn

end WellFormed

end Tree

namespace Session

/-- **The walk along a path's chain is inheritance along the parents.** In a session that steps lead to, and
whatever the policies, every path has a deepest node, and what is in force is the policy that this node
inherits; the recursion on parents that says so is well founded, since a parent is older. A link on the way
ends all: nothing is in force, whatever lies above. -/
theorem inForce_eq_effective {s : Session} (hs : s.Reachable) (r : Registry) (path : String)
    (hpath : (Path.normalize path).isOk) :
    ∃ c, s.tree.chain path = .ok c ∧ (∃ d, s.tree.Deepest d c) ∧
      (∀ d, s.tree.Deepest d c → s.tree.inForce r c = s.tree.effective r d) ∧
      (∀ id n, some id ∈ c.entries → s.tree.node? id = some n → n.kind.type = .link →
        s.tree.inForce r c = .ok none) ∧
      ∀ id n, s.tree.node? id = some n → n.isDirectory → n.attributes.find? PolicyName.key = none →
        s.tree.effective r id = match n.parent with
          | none => .ok none
          | some u => s.tree.effective r u := by
  have ht := hs.wellFormed.tree
  obtain ⟨c, hc⟩ := s.tree.chain_of_isOk hpath
  refine ⟨c, hc, ht.exists_deepest hc, fun d hd => ht.inForce_of_deepest hc hd, ?_, ?_⟩
  · intro id n hid hn hlink
    have hdir : ¬n.isDirectory := by rw [Node.isDirectory, hlink]; decide
    rw [ht.inForce_of_deepest hc (Tree.deepest_of_not_directory hc hid hn hdir),
      Tree.effective_of_verdict hn (Node.verdict?_of_link hlink)]
  · intro id n hn hdir hnone
    exact ht.effective_of_silent hn hdir hnone

/-- In a damaged directory there are a link, a file with the number of a policy, one with a negative number, and a
directory that inherits the damage. The paths through the link and the files do not show it. -/
theorem inForce_eq_effective_damaged :
    let s := (damaged.run [
      .change (.makeLink "/a/l" "/b"),
      .change (.makeFile "/a/f" 1),
      .change (.makeFile "/a/g" (-1))]).2
    s.Reachable ∧ (Path.normalize "/a/l/x").isOk ∧ (Path.normalize "/a/f/x").isOk ∧ (Path.normalize "/a/g").isOk ∧
      (Path.normalize "/a/b/c").isOk ∧
      s.tree.inForce s.registry ⟨"/a/l/x", [some 0, some 1, some 3, none]⟩ = .ok none ∧
      s.tree.inForce s.registry ⟨"/a/f/x", [some 0, some 1, some 4, none]⟩ =
        .ok (some ⟨1, ⟨"rs", 6, 3⟩, systemCellSize⟩) ∧
      s.tree.inForce s.registry ⟨"/a/g", [some 0, some 1, some 5]⟩ = .ok none ∧
      s.tree.inForce s.registry ⟨"/a/b/c", [some 0, some 1, some 2, none]⟩ =
        s.tree.effective s.registry 2 ∧
      s.tree.effective s.registry 2 = s.tree.effective s.registry 1 := by
  intro s
  have hs : s.Reachable := reachable_damaged.run _
  have hlink : s.tree.chain "/a/l/x" = .ok ⟨"/a/l/x", [some 0, some 1, some 3, none]⟩ := rfl
  have hfile : s.tree.chain "/a/f/x" = .ok ⟨"/a/f/x", [some 0, some 1, some 4, none]⟩ := rfl
  have hnegative : s.tree.chain "/a/g" = .ok ⟨"/a/g", [some 0, some 1, some 5]⟩ := rfl
  have hbelow : s.tree.chain "/a/b/c" = .ok ⟨"/a/b/c", [some 0, some 1, some 2, none]⟩ := rfl
  obtain ⟨c₁, hc₁, -, -, hends, hup⟩ := inForce_eq_effective hs s.registry "/a/l/x" rfl
  obtain ⟨c₂, hc₂, -, hcarries, -⟩ := inForce_eq_effective hs s.registry "/a/f/x" rfl
  obtain ⟨c₃, hc₃, -, hnone, -⟩ := inForce_eq_effective hs s.registry "/a/g" rfl
  obtain ⟨c₄, hc₄, -, hdeepest, -⟩ := inForce_eq_effective hs s.registry "/a/b/c" rfl
  cases hlink.symm.trans hc₁
  cases hfile.symm.trans hc₂
  cases hnegative.symm.trans hc₃
  cases hbelow.symm.trans hc₄
  refine ⟨hs, rfl, rfl, rfl, rfl, hends 3 _ (by decide) rfl rfl, ?_, ?_, hdeepest 2 ?_, hup 2 _ rfl rfl rfl⟩
  · rw [hcarries 4 ⟨[some 0, some 1], [none], rfl, rfl, by decide⟩, Tree.effective]
    rfl
  · rw [hnone 5 ⟨[some 0, some 1], [], rfl, rfl, by decide⟩, Tree.effective]
    rfl
  · exact ⟨[some 0, some 1], [none], rfl, rfl, by decide⟩

end Session

end PolicyTree
