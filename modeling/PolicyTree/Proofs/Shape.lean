import PolicyTree.Proofs.Attributes
import PolicyTree.Proofs.Sorted
import PolicyTree.Tree.Make

/-!
# The shape of a tree

The shape is all of a tree but the attributes: names, kinds, parents and children.

* `Tree.setAttributes`: the tree with other attributes on one node.
* `Tree.SameShape`: two trees differ in attributes only; paths then lead to the same nodes
  (`SameShape.chain`).
* `Tree.node?_setAttributes`, `Tree.node?_add`: what the two elementary changes do to each node.
* `Tree.getLast?_trail_cons_iff`: names lead on from the child under the first of them.
-/

namespace PolicyTree

/-- A node without its attributes. -/
def Node.bare (n : Node) : Node := { n with attributes := {} }

namespace Children

/-- **A look-up after an insertion.** -/
theorem find?_insert (c : Children) (name other : String) (id : NodeId) :
    (c.insert name id).find? other = if name = other then some id else c.find? other :=
  find?_place NameBefore name other id c.toList

end Children

namespace Node

variable {n : Node} {name other : String} {id : NodeId}

theorem kind_of_directory (h : n.isDirectory) : ∃ c, n.kind = .directory c := by
  cases hk : n.kind with
  | directory c => exact ⟨c, rfl⟩
  | file raw => rw [isDirectory, hk] at h; cases h
  | link target => rw [isDirectory, hk] at h; cases h

theorem hold_of_directory (h : n.isDirectory) (name : String) (id : NodeId) :
    ∃ c, n.kind = .directory c ∧ n.hold name id = { n with kind := .directory (c.insert name id) } := by
  obtain ⟨c, hk⟩ := kind_of_directory h
  exact ⟨c, hk, by unfold hold; rw [hk]⟩

@[simp] theorem hold_id (n : Node) (name : String) (id : NodeId) : (n.hold name id).id = n.id := by
  unfold hold; split <;> rfl

@[simp] theorem hold_name (n : Node) (name : String) (id : NodeId) : (n.hold name id).name = n.name := by
  unfold hold; split <;> rfl

@[simp] theorem hold_parent (n : Node) (name : String) (id : NodeId) :
    (n.hold name id).parent = n.parent := by
  unfold hold; split <;> rfl

@[simp] theorem hold_attributes (n : Node) (name : String) (id : NodeId) :
    (n.hold name id).attributes = n.attributes := by
  unfold hold; split <;> rfl

@[simp] theorem hold_type (n : Node) (name : String) (id : NodeId) :
    (n.hold name id).kind.type = n.kind.type := by
  unfold hold; split
  · rename_i h; rw [h]; rfl
  · rfl

@[simp] theorem hold_isDirectory (n : Node) (name : String) (id : NodeId) :
    (n.hold name id).isDirectory = n.isDirectory := by
  unfold isDirectory; rw [hold_type]

/-- What is no directory holds nothing. -/
theorem hold_of_not_directory (h : ¬n.isDirectory) (name : String) (id : NodeId) : n.hold name id = n := by
  unfold hold
  cases hk : n.kind with
  | directory c => rw [isDirectory, hk] at h; exact absurd rfl h
  | file raw => rfl
  | link target => rfl

theorem child?_hold (h : n.isDirectory) (name other : String) (id : NodeId) :
    (n.hold name id).child? other = if name = other then some id else n.child? other := by
  obtain ⟨c, hk, hh⟩ := hold_of_directory h name id
  rw [hh]
  simp only [child?, children?, hk, Option.bind_some, Children.find?_insert]

end Node

namespace Tree

variable {t t' : Tree} {id j dir : NodeId} {name : String} {n : Node}

/-- The tree with other attributes on the node of an id. -/
def setAttributes (t : Tree) (id : NodeId) (attributes : AttributeSet) : Tree :=
  t.update id fun n => { n with attributes }

/-- Two trees differ in attributes only. -/
def SameShape (t t' : Tree) : Prop := ∀ id, (t.node? id).map Node.bare = (t'.node? id).map Node.bare

theorem trail_ne_nil (t : Tree) (here : Option NodeId) (names : List String) : t.trail here names ≠ [] := by
  cases names <;> simp [trail]

theorem not_mem_trail_none (t : Tree) (d : NodeId) : ∀ names : List String, some d ∉ t.trail none names := by
  intro names
  induction names with
  | nil => simp [trail]
  | cons name rest ih => rw [trail, Option.bind_none, List.mem_cons, not_or]; exact ⟨by simp, ih⟩

/-- **Names lead to a node** if the first of them leads to a child, and the others from there to the node. -/
theorem getLast?_trail_cons_iff {here d : NodeId} {name : String} {rest : List String} :
    (t.trail (some here) (name :: rest)).getLast? = some (some d) ↔
      ∃ child, t.child? here name = some child ∧ (t.trail (some child) rest).getLast? = some (some d) := by
  rw [trail, Option.bind_some, List.getLast?_cons_of_ne_nil (t.trail_ne_nil _ _)]
  constructor
  · intro hlast
    cases hc : t.child? here name with
    | none =>
      rw [hc] at hlast
      exact absurd (List.mem_of_getLast? hlast) (t.not_mem_trail_none d rest)
    | some child =>
      rw [hc] at hlast
      exact ⟨child, rfl, hlast⟩
  · rintro ⟨child, hc, hlast⟩
    rw [hc, hlast]

theorem node?_update (t : Tree) (id : NodeId) (f : Node → Node) (j : NodeId) :
    (t.update id f).node? j = if id = j then (t.node? j).map f else t.node? j := by
  unfold node? update
  rw [List.getElem?_modify]
  cases t.nodes[j]? with
  | none => simp
  | some n => by_cases h : id = j <;> simp [h]

theorem node?_setAttributes (t : Tree) (id : NodeId) (s : AttributeSet) (j : NodeId) :
    (t.setAttributes id s).node? j =
      if id = j then (t.node? j).map ({ · with attributes := s }) else t.node? j :=
  node?_update t id _ j

theorem node?_setAttributes_self (hn : t.node? id = some n) (s : AttributeSet) :
    (t.setAttributes id s).node? id = some { n with attributes := s } := by
  rw [node?_setAttributes, if_pos rfl, hn]; rfl

theorem node?_setAttributes_of_ne (h : id ≠ j) (s : AttributeSet) :
    (t.setAttributes id s).node? j = t.node? j := by
  rw [node?_setAttributes, if_neg h]

/-- A node of the tree with other attributes on one: that one, or an old one. -/
theorem node?_setAttributes_cases {m : Node} {s : AttributeSet} (hn : t.node? id = some n)
    (hm : (t.setAttributes id s).node? j = some m) :
    j = id ∧ m = { n with attributes := s } ∨ t.node? j = some m := by
  by_cases hid : id = j
  · subst hid
    rw [node?_setAttributes_self hn] at hm
    exact Or.inl ⟨rfl, (Option.some.inj hm).symm⟩
  · rw [node?_setAttributes_of_ne hid] at hm
    exact Or.inr hm

theorem ext_node? (h : ∀ j, t.node? j = t'.node? j) : t = t' := by
  cases t; cases t'; congr; exact List.ext_getElem? h

/-- Only the node of the id matters to an update. -/
theorem update_eq_setAttributes {f : Node → Node} {s : AttributeSet} (hn : t.node? id = some n)
    (hf : f n = { n with attributes := s }) : t.update id f = t.setAttributes id s := by
  apply ext_node?
  intro j
  rw [node?_update, node?_setAttributes]
  split
  · rename_i h; subst h; rw [hn, Option.map_some, Option.map_some, hf]
  · rfl

theorem setAttributes_self (hn : t.node? id = some n) : t.setAttributes id n.attributes = t := by
  apply ext_node?
  intro j
  rw [node?_setAttributes]
  split
  · rename_i h; subst h; rw [hn]; rfl
  · rfl

/-- **Changes of two nodes commute.** -/
theorem setAttributes_comm (hne : id ≠ j) (t : Tree) (s s' : AttributeSet) :
    (t.setAttributes id s).setAttributes j s' = (t.setAttributes j s').setAttributes id s := by
  refine ext_node? fun k => ?_
  rw [node?_setAttributes, node?_setAttributes, node?_setAttributes, node?_setAttributes]
  by_cases hk : id = k
  · have hk' : j ≠ k := fun h => hne (hk.trans h.symm)
    rw [if_neg hk', if_pos hk, if_pos hk, if_neg hk']
  · rw [if_neg hk, if_neg hk]

/-- **Of two changes of one node the last stays.** -/
theorem setAttributes_setAttributes (t : Tree) (id : NodeId) (s s' : AttributeSet) :
    (t.setAttributes id s).setAttributes id s' = t.setAttributes id s' := by
  refine ext_node? fun j => ?_
  rw [node?_setAttributes, node?_setAttributes, node?_setAttributes]
  by_cases hj : id = j
  · rw [if_pos hj, if_pos hj, if_pos hj, Option.map_map]; rfl
  · rw [if_neg hj, if_neg hj, if_neg hj]

/-- Different attributes make different trees. -/
theorem setAttributes_inj (hn : t.node? id = some n) {s s' : AttributeSet} :
    t.setAttributes id s = t.setAttributes id s' ↔ s = s' := by
  refine ⟨fun h => ?_, fun h => h ▸ rfl⟩
  have hnode := node?_setAttributes_self hn s
  rw [h, node?_setAttributes_self hn, Option.some.injEq, Node.mk.injEq] at hnode
  exact hnode.2.2.2.2.symm

theorem sameShape_setAttributes (t : Tree) (id : NodeId) (s : AttributeSet) :
    (t.setAttributes id s).SameShape t := by
  intro j
  rw [node?_setAttributes]
  split
  · rw [Option.map_map]; rfl
  · rfl

theorem trail_congr (h : ∀ id name, t.child? id name = t'.child? id name) : ∀ (names : List String)
    (here : Option NodeId), t.trail here names = t'.trail here names := by
  intro names
  induction names with
  | nil => intro here; rfl
  | cons name names ih =>
    intro here
    have hc : (here.bind (t.child? · name)) = here.bind (t'.child? · name) := by
      cases here with
      | none => rfl
      | some id => exact h id name
    rw [trail, trail, hc, ih]

/-- **Paths lead to the same nodes** in two trees whose directories hold the same. -/
theorem chain_of_child? (h : ∀ id name, t.child? id name = t'.child? id name) (path : String) :
    t.chain path = t'.chain path := by
  unfold chain
  simp only [trail_congr h]

namespace SameShape

theorem child? (h : t.SameShape t') (id : NodeId) (name : String) :
    t.child? id name = t'.child? id name := by
  have key : ∀ t : Tree, t.child? id name = ((t.node? id).map Node.bare).bind (·.child? name) := by
    intro t
    unfold Tree.child?
    rw [Option.bind_map]
    rfl
  rw [key t, key t', h id]

/-- **Paths lead to the same nodes.** -/
theorem chain (h : t.SameShape t') (path : String) : t.chain path = t'.chain path := chain_of_child? h.child? path

end SameShape

theorem isDirectory_of_node? (hn : t.node? id = some n) : t.isDirectory id = n.isDirectory := by
  rw [isDirectory, hn, Option.any_some]

theorem child?_of_node? (hn : t.node? id = some n) (name : String) : t.child? id name = n.child? name := by
  rw [child?, hn, Option.bind_some]

theorem child?_of_not_directory (hn : t.node? id = some n) (hdir : ¬n.isDirectory) (name : String) :
    t.child? id name = none := by
  rw [child?_of_node? hn]
  unfold Node.child? Node.children?
  cases hk : n.kind with
  | directory children => exact absurd (by rw [Node.isDirectory, hk]; rfl) hdir
  | file raw => rfl
  | link target => rfl

/-- What has a child is a directory. -/
theorem directory_of_child? {child : NodeId} {name : String} (hn : t.node? id = some n)
    (hc : t.child? id name = some child) : n.isDirectory := by
  refine Decidable.byContradiction fun hdir => ?_
  rw [child?_of_not_directory hn hdir] at hc
  cases hc

/-! ## One more node -/

theorem size_add (t : Tree) (dir : NodeId) (name : String) (kind : NodeKind) :
    (t.add dir name kind).size = t.size + 1 := by
  simp [add, size]

theorem node?_lt (h : t.node? j = some n) : j < t.size := (List.getElem?_eq_some_iff.1 h).1

/-- The ids of nodes are the numbers below the size. -/
theorem exists_node?_iff : (∃ n, t.node? j = some n) ↔ j < t.size :=
  ⟨fun ⟨_, h⟩ => node?_lt h, fun h => ⟨_, List.getElem?_eq_getElem h⟩⟩

theorem node?_size (t : Tree) : t.node? t.size = none := List.getElem?_eq_none (Nat.le_refl _)

/-- **Each node after an addition**: the new one, the directory that holds it, or an old one. -/
theorem node?_add (t : Tree) (dir : NodeId) (name : String) (kind : NodeKind) (j : NodeId) :
    (t.add dir name kind).node? j =
      if j = t.size then some { id := t.size, name, parent := some dir, kind }
      else if dir = j then (t.node? j).map (·.hold name t.size) else t.node? j := by
  have hlen : (t.nodes.modify dir (·.hold name t.size)).length = t.size := List.length_modify _ _ _
  rcases Nat.lt_trichotomy j t.size with h | h | h
  · rw [if_neg (Nat.ne_of_lt h), ← node?_update]
    exact List.getElem?_append_left (by omega)
  · rw [if_pos h]
    unfold node? add
    rw [List.getElem?_append_right (by omega), hlen, h, Nat.sub_self]
    rfl
  · have hnone : t.node? j = none := List.getElem?_eq_none (Nat.le_of_lt h)
    rw [if_neg (Nat.ne_of_gt h), hnone, Option.map_none, ite_self]
    apply List.getElem?_eq_none
    rw [show (t.add dir name kind).nodes.length = t.size + 1 from size_add t dir name kind]
    exact h

theorem node?_add_new (t : Tree) (dir : NodeId) (name : String) (kind : NodeKind) :
    (t.add dir name kind).node? t.size = some { id := t.size, name, parent := some dir, kind } := by
  rw [node?_add, if_pos rfl]

/-- An old node keeps all but its children. -/
theorem node?_add_old (hn : t.node? j = some n) (dir : NodeId) (name : String) (kind : NodeKind) :
    (t.add dir name kind).node? j = some (if dir = j then n.hold name t.size else n) := by
  rw [node?_add, if_neg (Nat.ne_of_lt (node?_lt hn)), hn, Option.map_some]
  split <;> rfl

end Tree

end PolicyTree
