import PolicyTree.Proofs.Alterations

/-!
# Well-formed trees

`Tree.WellFormed` is what holds of every tree that actions build from the empty one: a node lies
under its id, below a directory of a smaller id, and under its own name there; the children of a
directory are sorted by name; no node has two attributes of one name.

* `WellFormed.empty`, `WellFormed.alters`: the empty tree is well formed, and an elementary change
  keeps it so; hence `WellFormed.altered`.
-/

namespace PolicyTree

open Relation (ReflTransGen)

/-! ## Sorted children -/

theorem NameBefore.trans {a b c : String} (h : NameBefore a b) (h' : NameBefore b c) : NameBefore a c :=
  List.lt_trans h h'

theorem NameBefore.of_not {a b : String} (h : ¬NameBefore a b) (hne : a ≠ b) : NameBefore b a := by
  have hle : Text.utf8 b ≤ Text.utf8 a := List.not_lt.1 h
  rcases List.le_iff_lt_or_eq.1 hle with hlt | heq
  · exact hlt
  · exact absurd (Text.utf8_injective heq).symm hne

namespace Children

/-- The names stand in the order of their bytes, each once. -/
def Sorted (c : Children) : Prop := (c.toList.map (·.1)).Pairwise NameBefore

theorem Sorted.insert {c : Children} (h : c.Sorted) (name : String) (id : NodeId) :
    (c.insert name id).Sorted := pairwise_place NameBefore NameBefore.trans NameBefore.of_not name id c.toList h

end Children

/-- **Two states of one node.** Only its children and its attributes may differ. -/
structure Node.Continues (n n' : Node) : Prop where
  id : n'.id = n.id
  name : n'.name = n.name
  parent : n'.parent = n.parent
  isDirectory : n'.isDirectory = n.isDirectory
  /-- A file keeps its policy id, and a link its target. -/
  kind : ¬n.isDirectory → n'.kind = n.kind

theorem Node.Continues.refl (n : Node) : n.Continues n := ⟨rfl, rfl, rfl, rfl, fun _ => rfl⟩

theorem Node.Continues.trans {n n' n'' : Node} (h : n.Continues n') (h' : n'.Continues n'') :
    n.Continues n'' where
  id := h'.id.trans h.id
  name := h'.name.trans h.name
  parent := h'.parent.trans h.parent
  isDirectory := h'.isDirectory.trans h.isDirectory
  kind := fun hdir => (h'.kind (by rwa [h.isDirectory])).trans (h.kind hdir)

/-- A node goes on, whether it holds one more or not. -/
theorem Node.continues_ite (n : Node) (p : Prop) [Decidable p] (name : String) (id : NodeId) :
    n.Continues (if p then n.hold name id else n) := by
  by_cases hp : p
  · rw [if_pos hp]
    exact ⟨n.hold_id name id, n.hold_name name id, n.hold_parent name id, n.hold_isDirectory name id,
      fun hdir => by rw [n.hold_of_not_directory hdir]⟩
  · rw [if_neg hp]; exact .refl n

theorem Node.attributes_ite (n : Node) (p : Prop) [Decidable p] (name : String) (id : NodeId) :
    (if p then n.hold name id else n).attributes = n.attributes := by
  split
  · exact n.hold_attributes name id
  · rfl

theorem Node.children?_hold {n : Node} {c : Children} {name : String} {id : NodeId}
    (h : (n.hold name id).children? = some c) : ∃ c', n.children? = some c' ∧ c = c'.insert name id := by
  unfold Node.hold at h
  unfold Node.children? at h ⊢
  cases hk : n.kind with
  | directory c' => rw [hk] at h; exact ⟨c', rfl, (Option.some.inj h).symm⟩
  | file raw => rw [hk] at h; simp only [hk] at h; cases h
  | link target => rw [hk] at h; simp only [hk] at h; cases h

namespace Tree

variable {t t' : Tree} {id dir : NodeId} {n : Node} {touchable : String → Prop}

/-- **The representation invariant.** -/
structure WellFormed (t : Tree) : Prop where
  /-- A node knows its own id. -/
  id_eq : ∀ {id n}, t.node? id = some n → n.id = id
  rooted : ∃ n, t.node? root = some n ∧ n.isDirectory ∧ n.name = "" ∧ n.parent = none
  /-- Every other node lies in a directory that was there before it. -/
  parent : ∀ {id n}, t.node? id = some n → id ≠ root →
    ∃ u d, n.parent = some u ∧ u < id ∧ t.node? u = some d ∧ d.isDirectory ∧ Path.IsName n.name
  /-- A directory holds a node under a name exactly if the node says so. -/
  child_iff : ∀ {dir name id}, t.child? dir name = some id ↔
    ∃ n, t.node? id = some n ∧ n.parent = some dir ∧ n.name = name
  sorted : ∀ {id n c}, t.node? id = some n → n.children? = some c → c.Sorted
  distinct : ∀ {id n}, t.node? id = some n → n.attributes.Distinct

/-- **A parent is older than what lies in it.** -/
theorem WellFormed.parent_lt (ht : t.WellFormed) {u : NodeId} (hn : t.node? id = some n)
    (hp : n.parent = some u) : u < id := by
  have hid : id ≠ root := by
    rintro rfl
    obtain ⟨r, hr, -, -, hrp⟩ := ht.rooted
    rw [hr] at hn; cases hn
    rw [hrp] at hp; cases hp
  obtain ⟨v, _, hv, hlt, -⟩ := ht.parent hn hid
  rw [hp] at hv; cases hv
  exact hlt

theorem SameShape.symm (h : t.SameShape t') : t'.SameShape t := fun id => (h id).symm

theorem SameShape.node? (h : t.SameShape t') (hn : t.node? id = some n) :
    ∃ attributes, t'.node? id = some { n with attributes } := by
  have hb := h id
  rw [hn, Option.map_some] at hb
  obtain ⟨n', hn', he⟩ := Option.map_eq_some_iff.1 hb.symm
  refine ⟨n'.attributes, ?_⟩
  rw [hn']
  cases n'; cases n
  simp only [Node.bare, Node.mk.injEq, and_true] at he
  simp only [he]

/-- Only the attributes are left to check on a tree of the same shape. -/
theorem WellFormed.of_sameShape (ht : t.WellFormed) (h : t'.SameShape t)
    (hd : ∀ {id n}, t'.node? id = some n → n.attributes.Distinct) : t'.WellFormed where
  id_eq := by
    intro id n hn
    obtain ⟨s, hn0⟩ := h.node? hn
    have hid : { n with attributes := s }.id = id := ht.id_eq hn0
    exact hid
  rooted := by
    obtain ⟨n0, hn0, hroot⟩ := ht.rooted
    obtain ⟨s, hn⟩ := h.symm.node? hn0
    exact ⟨_, hn, hroot⟩
  parent := by
    intro id n hn hid
    obtain ⟨s, hn0⟩ := h.node? hn
    obtain ⟨u, d0, hu, hlt, hd0, hdir, hname⟩ := ht.parent hn0 hid
    obtain ⟨s', hd⟩ := h.symm.node? hd0
    exact ⟨u, _, hu, hlt, hd, hdir, hname⟩
  child_iff := by
    intro dir name id
    rw [h.child?, ht.child_iff]
    constructor
    · rintro ⟨n0, hn0, hpar⟩
      obtain ⟨s, hn⟩ := h.symm.node? hn0
      exact ⟨_, hn, hpar⟩
    · rintro ⟨n, hn, hpar⟩
      obtain ⟨s, hn0⟩ := h.node? hn
      exact ⟨_, hn0, hpar⟩
  sorted := by
    intro id n c hn hc
    obtain ⟨s, hn0⟩ := h.node? hn
    exact ht.sorted hn0 hc
  distinct := hd

theorem WellFormed.setAttributes (ht : t.WellFormed) {s : AttributeSet} (hs : s.Distinct) (id : NodeId) :
    (t.setAttributes id s).WellFormed := by
  refine ht.of_sameShape (sameShape_setAttributes t id s) ?_
  intro j n hn
  rw [node?_setAttributes] at hn
  split at hn
  · obtain ⟨n0, -, rfl⟩ := Option.map_eq_some_iff.1 hn
    exact hs
  · exact ht.distinct hn

/-! ## The empty tree, and one more node -/

theorem node?_empty (hn : Tree.empty.node? id = some n) :
    id = root ∧ n = { id := root, name := "", parent := none, kind := .emptyDirectory } := by
  obtain ⟨hlt, he⟩ := List.getElem?_eq_some_iff.1 hn
  obtain rfl : id = 0 := Nat.lt_one_iff.1 hlt
  exact ⟨rfl, he.symm⟩

theorem WellFormed.empty : Tree.empty.WellFormed := by
  refine ⟨?_, ⟨_, rfl, rfl, rfl, rfl⟩, ?_, ?_, ?_, ?_⟩
  · intro id n hn; obtain ⟨rfl, rfl⟩ := node?_empty hn; rfl
  · intro id n hn hid; exact absurd (node?_empty hn).1 hid
  · intro dir name id
    constructor
    · intro h
      obtain ⟨n, hn, hc⟩ := Option.bind_eq_some_iff.1 h
      obtain ⟨rfl, rfl⟩ := node?_empty hn
      cases hc
    · rintro ⟨n, hn, hpar, -⟩
      obtain ⟨rfl, rfl⟩ := node?_empty hn
      cases hpar
  · intro id n c hn hc
    obtain ⟨rfl, rfl⟩ := node?_empty hn
    cases hc; exact List.Pairwise.nil
  · intro id n hn
    obtain ⟨rfl, rfl⟩ := node?_empty hn
    exact AttributeSet.Distinct.empty

/-- A node of the tree after an addition is the new one, or an old one that may hold one more. -/
theorem node?_add_cases {name : String} {kind : NodeKind} (hn : (t.add dir name kind).node? id = some n) :
    (id = t.size ∧ n = { id := t.size, name, parent := some dir, kind }) ∨
      ∃ n0, t.node? id = some n0 ∧ n = if dir = id then n0.hold name t.size else n0 := by
  rw [node?_add] at hn
  split at hn
  · rename_i h; exact Or.inl ⟨h, (Option.some.inj hn).symm⟩
  · right
    split at hn
    · rename_i h
      obtain ⟨n0, hn0, rfl⟩ := Option.map_eq_some_iff.1 hn
      exact ⟨n0, hn0, (if_pos h).symm⟩
    · rename_i h; exact ⟨n, hn, (if_neg h).symm⟩

theorem child?_holdsNothing {kind : NodeKind} (hkind : kind.HoldsNothing) {n : Node} (hn : n.kind = kind)
    (name : String) : n.child? name = none := by
  unfold Node.child? Node.children?
  cases hk : n.kind with
  | directory c => rw [hkind c (hn ▸ hk)]; rfl
  | file raw => rfl
  | link target => rfl

theorem sorted_of_holdsNothing {kind : NodeKind} (hkind : kind.HoldsNothing) {n : Node} (hn : n.kind = kind)
    {c : Children} (hc : n.children? = some c) : c.Sorted := by
  unfold Node.children? at hc
  cases hk : n.kind with
  | directory c' =>
    rw [hk] at hc; cases hc
    rw [hkind c (hn ▸ hk)]; exact List.Pairwise.nil
  | file raw => rw [hk] at hc; cases hc
  | link target => rw [hk] at hc; cases hc

/-- **Each child after an addition.** -/
theorem child?_add {d : Node} {name : String} {kind : NodeKind} (hd : t.node? dir = some d)
    (hdir : d.isDirectory) (hkind : kind.HoldsNothing) (at' : NodeId) (other : String) :
    (t.add dir name kind).child? at' other =
      if at' = dir ∧ other = name then some t.size else t.child? at' other := by
  have hlt := node?_lt hd
  unfold Tree.child?
  rw [node?_add]
  split
  · -- the new node holds nothing, and it is not the directory
    rename_i hat
    have hne : ¬(at' = dir ∧ other = name) := fun h => Nat.ne_of_lt hlt (h.1 ▸ hat)
    rw [if_neg hne, hat, node?_size, Option.bind_some, Option.bind_none]
    exact child?_holdsNothing hkind rfl other
  · split
    · rename_i hat
      subst hat
      rw [hd, Option.map_some, Option.bind_some, Option.bind_some, Node.child?_hold hdir]
      by_cases ho : name = other
      · rw [if_pos ho, if_pos ⟨rfl, ho.symm⟩]
      · rw [if_neg ho, if_neg fun h => ho h.2.symm]
    · rename_i hat
      rw [if_neg fun h => hat h.1.symm]

/-- Every old node is still there after an addition, and continues. -/
theorem continues_add (hn : t.node? id = some n) (dir : NodeId) (name : String) (kind : NodeKind) :
    ∃ n', (t.add dir name kind).node? id = some n' ∧ n.Continues n' :=
  ⟨_, node?_add_old hn dir name kind, n.continues_ite _ name t.size⟩

namespace WellFormed

variable {d : Node} {name : String} {kind : NodeKind}

theorem rooted_add (ht : t.WellFormed) (dir : NodeId) (name : String) (kind : NodeKind) :
    ∃ n, (t.add dir name kind).node? root = some n ∧ n.isDirectory ∧ n.name = "" ∧ n.parent = none := by
  obtain ⟨n0, hn0, hdir0, hname0, hparent0⟩ := ht.rooted
  obtain ⟨n, hn, hc⟩ := continues_add hn0 dir name kind
  exact ⟨n, hn, by rw [hc.isDirectory, hdir0], by rw [hc.name, hname0], by rw [hc.parent, hparent0]⟩

theorem parent_add (ht : t.WellFormed) (hd : t.node? dir = some d) (hdir : d.isDirectory)
    (hname : Path.IsName name) (hn : (t.add dir name kind).node? id = some n) (hid : id ≠ root) :
    ∃ u m, n.parent = some u ∧ u < id ∧ (t.add dir name kind).node? u = some m ∧ m.isDirectory ∧
      Path.IsName n.name := by
  rcases node?_add_cases hn with ⟨rfl, rfl⟩ | ⟨n0, hn0, rfl⟩
  · -- the directory was there before, so its id is smaller
    obtain ⟨d', hd', hc⟩ := continues_add hd dir name kind
    have hdir' : d'.isDirectory := by rw [hc.isDirectory, hdir]
    exact ⟨dir, d', rfl, node?_lt hd, hd', hdir', hname⟩
  · obtain ⟨u, m, hu, hlt, hm, hmdir, hn0name⟩ := ht.parent hn0 hid
    obtain ⟨m', hm', hc⟩ := continues_add hm dir name kind
    have hc0 := n0.continues_ite (dir = id) name t.size
    have hmdir' : m'.isDirectory := by rw [hc.isDirectory, hmdir]
    exact ⟨u, m', by rw [hc0.parent, hu], hlt, hm', hmdir', by rw [hc0.name]; exact hn0name⟩

theorem child_iff_add (ht : t.WellFormed) (hd : t.node? dir = some d) (hdir : d.isDirectory)
    (hfree : d.child? name = none) (hkind : kind.HoldsNothing) (at' : NodeId) (other : String)
    (id : NodeId) :
    (t.add dir name kind).child? at' other = some id ↔
      ∃ n, (t.add dir name kind).node? id = some n ∧ n.parent = some at' ∧ n.name = other := by
  have hfree' : t.child? dir name = none := by unfold Tree.child?; rw [hd]; exact hfree
  rw [child?_add hd hdir hkind]
  constructor
  · intro h
    split at h
    · rename_i hat
      cases h
      exact ⟨_, node?_add_new t dir name kind, by rw [hat.1], by rw [hat.2]⟩
    · obtain ⟨n0, hn0, hpar, hn0name⟩ := ht.child_iff.1 h
      obtain ⟨n, hn, hc⟩ := continues_add hn0 dir name kind
      exact ⟨n, hn, by rw [hc.parent, hpar], by rw [hc.name, hn0name]⟩
  · rintro ⟨n, hn, hpar, hnname⟩
    rcases node?_add_cases hn with ⟨rfl, rfl⟩ | ⟨n0, hn0, rfl⟩
    · rw [if_pos ⟨(Option.some.inj hpar).symm, hnname.symm⟩]
    · -- the name was free, so no old node has it there
      have hc0 := n0.continues_ite (dir = id) name t.size
      rw [hc0.parent] at hpar
      rw [hc0.name] at hnname
      have hold : t.child? at' other = some id := ht.child_iff.2 ⟨n0, hn0, hpar, hnname⟩
      rw [if_neg, hold]
      rintro ⟨rfl, rfl⟩
      rw [hfree'] at hold; cases hold

theorem sorted_add (ht : t.WellFormed) (hkind : kind.HoldsNothing) {c : Children}
    (hn : (t.add dir name kind).node? id = some n) (hc : n.children? = some c) : c.Sorted := by
  rcases node?_add_cases hn with ⟨rfl, rfl⟩ | ⟨n0, hn0, rfl⟩
  · exact sorted_of_holdsNothing hkind rfl hc
  · split at hc
    · obtain ⟨c', hc', rfl⟩ := Node.children?_hold hc
      exact (ht.sorted hn0 hc').insert name t.size
    · exact ht.sorted hn0 hc

theorem add (ht : t.WellFormed) (hd : t.node? dir = some d) (hdir : d.isDirectory)
    (hfree : d.child? name = none) (hname : Path.IsName name) (hkind : kind.HoldsNothing) :
    (t.add dir name kind).WellFormed where
  id_eq := by
    intro id n hn
    rcases node?_add_cases hn with ⟨rfl, rfl⟩ | ⟨n0, hn0, rfl⟩
    · rfl
    · rw [(n0.continues_ite _ name t.size).id]; exact ht.id_eq hn0
  rooted := ht.rooted_add dir name kind
  parent := ht.parent_add hd hdir hname
  child_iff := ht.child_iff_add hd hdir hfree hkind _ _ _
  sorted := ht.sorted_add hkind
  distinct := by
    intro id n hn
    rcases node?_add_cases hn with ⟨rfl, rfl⟩ | ⟨n0, hn0, rfl⟩
    · exact AttributeSet.Distinct.empty
    · rw [n0.attributes_ite]; exact ht.distinct hn0

end WellFormed

/-! ## Any number of changes -/

/-- **An elementary change keeps a tree well formed.** -/
theorem WellFormed.alters (ht : t.WellFormed) (h : t.Alters touchable t') : t'.WellFormed := by
  cases h with
  | put hn _ => exact ht.setAttributes ((ht.distinct hn).put _) _
  | erase hn _ => exact ht.setAttributes ((ht.distinct hn).erase _) _
  | add hd hdir hfree hname hkind => exact ht.add hd hdir hfree hname hkind

theorem WellFormed.altered (ht : t.WellFormed) (h : t.Altered touchable t') : t'.WellFormed := by
  induction h with
  | refl => exact ht
  | tail _ hstep ih => exact ih.alters hstep

/-- **An attribute whose name is not touchable stays as it is**; a new node has none. -/
theorem WellFormed.find?_alters {name : String} (ht : t.WellFormed) (h : t.Alters touchable t')
    (hname : ¬touchable name) (hn : t'.node? id = some n) :
    (∃ n0, t.node? id = some n0 ∧ n.attributes.find? name = n0.attributes.find? name) ∨
      (t.node? id = none ∧ n.attributes.find? name = none) := by
  -- a change of one node's attributes is seen only there
  have key : ∀ {j : NodeId} {m : Node} {s : AttributeSet}, t.node? j = some m →
      s.find? name = m.attributes.find? name → (t.setAttributes j s).node? id = some n →
      ∃ n0, t.node? id = some n0 ∧ n.attributes.find? name = n0.attributes.find? name := by
    intro j m s hm hs hn
    rcases node?_setAttributes_cases hm hn with ⟨rfl, rfl⟩ | hn
    · exact ⟨m, hm, hs⟩
    · exact ⟨n, hn, rfl⟩
  cases h with
  | @put j m a hm ha =>
    have hne : a.name ≠ name := by rintro rfl; exact hname ha
    refine Or.inl (key hm ?_ hn)
    rw [AttributeSet.find?_put, if_neg hne]
  | @erase j m other hm ha =>
    have hne : other ≠ name := by rintro rfl; exact hname ha
    refine Or.inl (key hm ?_ hn)
    rw [(ht.distinct hm).find?_erase, if_neg hne]
  | add hd hdir hfree hisName hkind =>
    rcases node?_add_cases hn with ⟨rfl, rfl⟩ | ⟨n0, hn0, rfl⟩
    · exact Or.inr ⟨node?_size t, rfl⟩
    · exact Or.inl ⟨n0, hn0, by rw [n0.attributes_ite]⟩

end Tree

end PolicyTree
