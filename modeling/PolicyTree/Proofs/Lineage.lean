import PolicyTree.Proofs.WellFormed

/-!
# Nodes and their canonical paths

The lineage of a node is the ids from the root down to it, along the parents; its canonical path is
the names along the lineage, joined.

* `WellFormed.chain_pathOf`: **the chain of a canonical path is the lineage of its node**, so
  different nodes have different canonical paths (`WellFormed.pathOf_injective`).
* `WellFormed.lookup_eq_some_iff`: **a path leads to a node exactly if it normalises to the node's names**.
* `chain_take`, `lookup_take`: what the first names of a path lead to.
* `WellFormed.chain_above`: a chain down to a node that it meets is that node's lineage, and
  `WellFormed.path_of_target`: the path of a chain that leads to a node is the canonical one.
* `extends_altered`: every node goes on in a tree that is altered. `Extends.pathOf`: canonical paths stay while
  the tree grows, and `WellFormed.find?_altered`: an attribute that nothing touches was there before.
-/

namespace PolicyTree.Tree

variable {t t' : Tree} {id d dir : NodeId} {n : Node} {a : Attribute} {c : Chain} {name : String}
  {touchable : String → Prop}

/-- **The ids from the root down to a node**, along the parents. -/
def lineage (t : Tree) (id : NodeId) : List NodeId :=
  match (t.node? id).bind (·.parent) with
  | none => [id]
  | some u => if u < id then t.lineage u ++ [id] else [id]
termination_by id

/-- The names along the lineage of a node; the root's is left out. -/
def names (t : Tree) (id : NodeId) : List String :=
  (t.lineage id).tail.filterMap fun i => (t.node? i).map (·.name)

/-- **The canonical path of a node.** -/
def pathOf (t : Tree) (id : NodeId) : String := Path.join (t.names id)

theorem lineage_ne_nil (t : Tree) (id : NodeId) : t.lineage id ≠ [] := by
  rw [lineage]
  split
  · simp
  · split <;> simp

theorem lineage_of_parent {u : NodeId} (hn : t.node? id = some n) (hp : n.parent = some u) (hlt : u < id) :
    t.lineage id = t.lineage u ++ [id] := by
  rw [lineage]
  simp only [hn, Option.bind_some, hp]
  rw [if_pos hlt]

theorem names_of_parent {u : NodeId} (hn : t.node? id = some n) (hp : n.parent = some u) (hlt : u < id) :
    t.names id = t.names u ++ [n.name] := by
  unfold names
  rw [lineage_of_parent hn hp hlt, List.tail_append_of_ne_nil (t.lineage_ne_nil u), List.filterMap_append]
  simp [hn]

theorem getLast?_lineage (t : Tree) (id : NodeId) : (t.lineage id).getLast? = some id := by
  rw [lineage]
  split
  · rfl
  · split
    · exact List.getLast?_concat
    · rfl

theorem length_trail (t : Tree) : ∀ (names : List String) (here : Option NodeId),
    (t.trail here names).length = names.length + 1 := by
  intro names
  induction names with
  | nil => intro here; rfl
  | cons name rest ih => intro here; rw [trail, List.length_cons, ih, List.length_cons]

theorem trail_concat (t : Tree) (name : String) : ∀ (names : List String) (here : Option NodeId),
    t.trail here (names ++ [name]) =
      t.trail here names ++ [(t.trail here names).getLast?.join.bind (t.child? · name)] := by
  intro names
  induction names with
  | nil => intro here; rfl
  | cons first rest ih =>
    intro here
    rw [List.cons_append, trail, trail, ih, List.cons_append,
      List.getLast?_cons_of_ne_nil (t.trail_ne_nil _ _)]

/-- **The chain of a path** is the canonical path and the trail of the path's names. -/
theorem chain_eq_ok_iff {path : String} : t.chain path = .ok c ↔
    ∃ names, Path.normalize path = .ok names ∧ c = ⟨Path.join names, t.trail (some root) names⟩ := by
  unfold chain
  cases Path.normalize path with
  | error e => exact ⟨nofun, nofun⟩
  | ok names =>
    constructor
    · rintro ⟨⟩; exact ⟨names, rfl, rfl⟩
    · rintro ⟨_, ⟨⟩, rfl⟩; rfl

theorem lookup_of_chain {path : String} (hc : t.chain path = .ok c) : t.lookup path = .ok c.last? := by
  unfold lookup; rw [hc]; rfl

theorem chain_of_lookup {path : String} {r : Option NodeId} (h : t.lookup path = .ok r) :
    ∃ c, t.chain path = .ok c ∧ c.last? = r := by
  unfold lookup at h
  cases hc : t.chain path with
  | error e => rw [hc] at h; cases h
  | ok c => rw [hc] at h; exact ⟨c, rfl, Except.ok.inj h⟩

theorem trail_take (t : Tree) : ∀ (names : List String) (k : Nat) (here : Option NodeId),
    t.trail here (names.take k) = (t.trail here names).take (k + 1) := by
  intro names
  induction names with
  | nil => intro k here; rw [List.take_nil, trail, List.take_succ_cons, List.take_nil]
  | cons name rest ih =>
    intro k here
    cases k with
    | zero => rw [List.take_zero, trail, trail, List.take_succ_cons, List.take_zero]
    | succ k => rw [List.take_succ_cons, trail, ih, trail, List.take_succ_cons]

/-- **The chain of the first names of a path** is the beginning of the path's chain. -/
theorem chain_take {path : String} {names : List String} (hp : Path.normalize path = .ok names) (t : Tree)
    (k : Nat) : t.chain (Path.join (names.take k)) =
      .ok ⟨Path.join (names.take k), (t.trail (some root) names).take (k + 1)⟩ := by
  have hnames : ∀ name ∈ names.take k, Path.IsName name := fun name hm =>
    Path.isName_of_normalize hp name (List.mem_of_mem_take hm)
  exact chain_eq_ok_iff.2 ⟨names.take k, Path.normalize_join hnames, by rw [trail_take]⟩

/-- The first names of a path lead to what stands at their place on its chain. -/
theorem lookup_take {path : String} {names : List String} (hp : Path.normalize path = .ok names) (t : Tree)
    {k : Nat} (hk : k ≤ names.length) :
    t.lookup (Path.join (names.take k)) = .ok (t.trail (some root) names)[k]?.join := by
  have hlt : k < (t.trail (some root) names).length := by
    rw [length_trail]; exact Nat.lt_succ_of_le hk
  rw [lookup_of_chain (chain_take hp t k), Chain.last?, List.getLast?_take, if_neg k.succ_ne_zero,
    Nat.add_sub_cancel, List.getElem?_eq_getElem hlt, Option.some_or]

namespace WellFormed

variable (ht : t.WellFormed)

include ht

theorem lineage_root : t.lineage root = [root] ∧ t.names root = [] := by
  obtain ⟨n, hn, -, -, hp⟩ := ht.rooted
  have h : t.lineage root = [root] := by rw [lineage, hn, Option.bind_some, hp]
  exact ⟨h, by rw [Tree.names, h]; rfl⟩

/-- A child's lineage is its directory's and the child. -/
theorem lineage_child {name : String} (h : t.child? dir name = some id) :
    t.lineage id = t.lineage dir ++ [id] ∧ t.names id = t.names dir ++ [name] := by
  obtain ⟨n, hn, hp, hname⟩ := ht.child_iff.1 h
  have hlt := ht.parent_lt hn hp
  exact ⟨lineage_of_parent hn hp hlt, hname ▸ names_of_parent hn hp hlt⟩

/-- **The part of a trail down to a node is the way to it in its lineage.** -/
theorem trail_above : ∀ (names : List String) (dir : NodeId) (above below : List (Option NodeId)),
    t.trail (some dir) names = above ++ some d :: below →
      ∃ ids, above ++ [some d] = (dir :: ids).map some ∧ t.lineage d = t.lineage dir ++ ids ∧
        t.names d = t.names dir ++ names.take above.length := by
  intro names
  induction names with
  | nil =>
    intro dir above below h
    rcases List.append_eq_singleton_iff.1 h.symm with ⟨rfl, hd⟩ | ⟨-, hd⟩
    · cases hd; exact ⟨[], rfl, (List.append_nil _).symm, by simp⟩
    · cases hd
  | cons name rest ih =>
    intro dir above below h
    rw [trail] at h
    cases above with
    | nil => cases h; exact ⟨[], rfl, (List.append_nil _).symm, by simp⟩
    | cons e above =>
      rw [List.cons_append, List.cons.injEq] at h
      obtain ⟨rfl, h⟩ := h
      rw [Option.bind_some] at h
      cases hc : t.child? dir name with
      | none =>
        -- past a name that leads nowhere there is no node
        have hmem : some d ∈ t.trail none rest := by
          rw [hc] at h; rw [h]; exact List.mem_append_right _ List.mem_cons_self
        exact absurd hmem (not_mem_trail_none t d rest)
      | some e =>
        rw [hc] at h
        obtain ⟨ids, h1, h2, h3⟩ := ih e above below h
        obtain ⟨hl, hn⟩ := ht.lineage_child hc
        refine ⟨e :: ids, ?_, ?_, ?_⟩
        · rw [List.cons_append, h1]; rfl
        · rw [h2, hl, List.append_assoc]; rfl
        · rw [h3, hn, List.append_assoc, List.length_cons, List.take_succ_cons]; rfl

/-- **The names along a lineage lead back along it.** -/
theorem trail_names : ∀ id n, t.node? id = some n →
    t.trail (some root) (t.names id) = (t.lineage id).map some := by
  intro id
  induction id using Nat.strongRecOn with
  | ind id ih =>
    intro n hn
    by_cases hid : id = root
    · subst hid; rw [ht.lineage_root.1, ht.lineage_root.2]; rfl
    · -- the names lead to the parent, and the last one from there to the node
      obtain ⟨u, d, hu, hlt, hd, -, -⟩ := ht.parent hn hid
      have hc : t.child? u n.name = some id := ht.child_iff.2 ⟨n, hn, hu, rfl⟩
      rw [names_of_parent hn hu hlt, lineage_of_parent hn hu hlt, trail_concat, ih u hlt d hd,
        List.map_append, List.getLast?_map, t.getLast?_lineage u, Option.map_some, Option.join_some,
        Option.bind_some, hc]
      rfl

theorem isName_names : ∀ id n, t.node? id = some n → ∀ name ∈ t.names id, Path.IsName name := by
  intro id
  induction id using Nat.strongRecOn with
  | ind id ih =>
    intro n hn
    by_cases hid : id = root
    · subst hid; rw [ht.lineage_root.2]; simp
    · obtain ⟨u, d, hu, hlt, hd, -, hname⟩ := ht.parent hn hid
      rw [names_of_parent hn hu hlt]
      intro name hm
      rcases List.mem_append.1 hm with hm | hm
      · exact ih u hlt d hd name hm
      · rw [List.mem_singleton.1 hm]; exact hname

/-- A path of a node's names leads along its lineage. -/
theorem chain_of_names {path : String} (hn : t.node? id = some n)
    (hp : Path.normalize path = .ok (t.names id)) :
    t.chain path = .ok ⟨t.pathOf id, (t.lineage id).map some⟩ :=
  chain_eq_ok_iff.2 ⟨t.names id, hp, by rw [ht.trail_names id n hn]; rfl⟩

/-- **The chain of a canonical path is the lineage of its node.** -/
theorem chain_pathOf (hn : t.node? id = some n) :
    t.chain (t.pathOf id) = .ok ⟨t.pathOf id, (t.lineage id).map some⟩ :=
  ht.chain_of_names hn (Path.normalize_join (ht.isName_names id n hn))

/-- **Different nodes have different canonical paths.** -/
theorem pathOf_injective {m : Node} (hn : t.node? id = some n) (hm : t.node? d = some m)
    (h : t.pathOf id = t.pathOf d) : id = d := by
  have h1 := ht.chain_pathOf hn
  rw [h, ht.chain_pathOf hm, Except.ok.injEq, Chain.mk.injEq] at h1
  -- one path has one chain, and a lineage ends in its node
  have h2 := congrArg List.getLast? h1.2
  simpa [List.getLast?_map, getLast?_lineage] using h2.symm

/-- **A chain down to a node that it meets is that node's lineage.** -/
theorem chain_above {path : String} {above below : List (Option NodeId)} (hc : t.chain path = .ok c)
    (he : c.entries = above ++ some d :: below) : above ++ [some d] = (t.lineage d).map some := by
  obtain ⟨names, -, rfl⟩ := chain_eq_ok_iff.1 hc
  obtain ⟨ids, h1, h2, -⟩ := ht.trail_above names root above below he
  rw [h1, h2, ht.lineage_root.1]; rfl

/-- **The entries of a chain that leads to a node are the node's lineage.** -/
theorem entries_of_target {path : String} (hc : t.chain path = .ok c) (hd : c.last? = some d) :
    c.entries = (t.lineage d).map some := by
  have hlast : c.entries.getLast? = some (some d) := Option.join_eq_some_iff.1 hd
  obtain ⟨above, he⟩ := List.getLast?_eq_some_iff.1 hlast
  rw [he]
  exact ht.chain_above hc he

/-- **The names of a trail are those of the node that it leads to.** -/
theorem names_of_trail {names : List String}
    (hlast : (t.trail (some root) names).getLast? = some (some d)) : t.names d = names := by
  obtain ⟨above, ha⟩ := List.getLast?_eq_some_iff.1 hlast
  obtain ⟨ids, h1, h2, h3⟩ := ht.trail_above names root above [] ha
  -- the target is the last entry, so all names lead to it
  have hlen : above.length = names.length := by
    have := congrArg List.length ha
    rw [length_trail, List.length_append, List.length_singleton] at this
    omega
  rw [hlen, List.take_length, ht.lineage_root.2, List.nil_append] at h3
  exact h3

/-- Names lead to nodes only. -/
theorem node?_of_mem_trail : ∀ (names : List String) (dir : NodeId), (∃ n, t.node? dir = some n) →
    some d ∈ t.trail (some dir) names → ∃ n, t.node? d = some n := by
  intro names
  induction names with
  | nil => intro dir hdir hd; cases List.mem_singleton.1 hd; exact hdir
  | cons name rest ih =>
    intro dir hdir hd
    rw [trail, Option.bind_some] at hd
    rcases List.mem_cons.1 hd with hd | hd
    · cases hd; exact hdir
    · cases hc : t.child? dir name with
      | none => rw [hc] at hd; exact absurd hd (not_mem_trail_none t d rest)
      | some child =>
        obtain ⟨m, hm, -⟩ := ht.child_iff.1 hc
        rw [hc] at hd
        exact ih child ⟨m, hm⟩ hd

/-- **A path leads to a node exactly if it normalises to the node's names.** -/
theorem lookup_eq_some_iff {path : String} : t.lookup path = .ok (some id) ↔
    (∃ n, t.node? id = some n) ∧ Path.normalize path = .ok (t.names id) := by
  constructor
  · intro h
    obtain ⟨c, hc, hlast⟩ := chain_of_lookup h
    obtain ⟨names, hp, rfl⟩ := chain_eq_ok_iff.1 hc
    have hlast : (t.trail (some root) names).getLast? = some (some id) := Option.join_eq_some_iff.1 hlast
    obtain ⟨n, hn, -⟩ := ht.rooted
    refine ⟨ht.node?_of_mem_trail names root ⟨n, hn⟩ (List.mem_of_getLast? hlast), ?_⟩
    rw [ht.names_of_trail hlast, hp]
  · rintro ⟨⟨n, hn⟩, hp⟩
    rw [lookup_of_chain (ht.chain_of_names hn hp)]
    simp [Chain.last?, getLast?_lineage]

/-- **The path of a chain that leads to a node is the node's canonical one.** -/
theorem path_of_target {path : String} (hc : t.chain path = .ok c) (hd : c.last? = some d) :
    c.path = t.pathOf d := by
  obtain ⟨names, -, rfl⟩ := chain_eq_ok_iff.1 hc
  have hlast : (t.trail (some root) names).getLast? = some (some d) := Option.join_eq_some_iff.1 hd
  rw [pathOf, ht.names_of_trail hlast]

end WellFormed

/-! ## Growing trees -/

/-- **Every node goes on.** -/
def Extends (t t' : Tree) : Prop := ∀ {id n}, t.node? id = some n → ∃ n', t'.node? id = some n' ∧ n.Continues n'

theorem Extends.refl (t : Tree) : t.Extends t := fun hn => ⟨_, hn, .refl _⟩

theorem Extends.trans {t'' : Tree} (h : t.Extends t') (h' : t'.Extends t'') : t.Extends t'' := by
  intro id n hn
  obtain ⟨n', hn', hc⟩ := h hn
  obtain ⟨n'', hn'', hc'⟩ := h' hn'
  exact ⟨n'', hn'', hc.trans hc'⟩

theorem extends_setAttributes (t : Tree) (d : NodeId) (s : AttributeSet) : t.Extends (t.setAttributes d s) := by
  intro id n hn
  obtain ⟨s', hs'⟩ := (sameShape_setAttributes t d s).symm.node? hn
  exact ⟨_, hs', rfl, rfl, rfl, rfl, fun _ => rfl⟩

theorem extends_alters (h : t.Alters touchable t') : t.Extends t' := by
  cases h with
  | put _ _ => exact t.extends_setAttributes _ _
  | erase _ _ => exact t.extends_setAttributes _ _
  | add _ _ _ _ _ => exact fun hn => ⟨_, node?_add_old hn _ _ _, Node.continues_ite _ _ _ _⟩

theorem extends_altered (h : t.Altered touchable t') : t.Extends t' := by
  induction h with
  | refl => exact Extends.refl t
  | tail _ hstep ih => exact ih.trans (extends_alters hstep)

/-- **An attribute whose name is not touchable was there before**, on the same node. -/
theorem WellFormed.find?_altered (ht : t.WellFormed) (h : t.Altered touchable t') (hname : ¬touchable name)
    (hn : t'.node? id = some n) (ha : n.attributes.find? name = some a) :
    ∃ m, t.node? id = some m ∧ m.attributes.find? name = some a ∧ n.isDirectory = m.isDirectory := by
  have hbefore : ∃ m, t.node? id = some m ∧ m.attributes.find? name = some a := by
    induction h generalizing n with
    | refl => exact ⟨n, hn, ha⟩
    | tail hsteps hstep ih =>
      rcases (ht.altered hsteps).find?_alters hstep hname hn with ⟨m, hm, hsame⟩ | ⟨-, hnone⟩
      · exact ih hm (hsame ▸ ha)
      · rw [hnone] at ha; cases ha
  obtain ⟨m, hm, hsame⟩ := hbefore
  obtain ⟨n', hn', hc⟩ := extends_altered h hm
  rw [hn] at hn'; cases hn'
  exact ⟨m, hm, hsame, hc.isDirectory⟩

/-- **Canonical paths stay while the tree grows.** -/
theorem Extends.names (h : t.Extends t') (ht : t.WellFormed) : ∀ id n, t.node? id = some n →
    t'.names id = t.names id := by
  intro id
  induction id using Nat.strongRecOn with
  | ind id ih =>
    intro n hn
    obtain ⟨n', hn', hc⟩ := h hn
    by_cases hid : id = root
    · subst hid
      obtain ⟨r, hr, -, -, hrp⟩ := ht.rooted
      rw [hr] at hn; cases hn
      have hl : t'.lineage root = [root] := by rw [lineage, hn', Option.bind_some, hc.parent, hrp]
      rw [ht.lineage_root.2, Tree.names, hl]; rfl
    · obtain ⟨u, d, hu, hlt, hd, -, -⟩ := ht.parent hn hid
      rw [names_of_parent hn hu hlt, names_of_parent hn' (hc.parent.trans hu) hlt, ih u hlt d hd, hc.name]

theorem Extends.pathOf (h : t.Extends t') (ht : t.WellFormed) (hn : t.node? id = some n) :
    t'.pathOf id = t.pathOf id := by
  unfold Tree.pathOf; rw [h.names ht id n hn]

end PolicyTree.Tree
