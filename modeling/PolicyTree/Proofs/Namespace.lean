import PolicyTree.Proofs.Moves

/-!
# The namespace of a session

What the nodes of a tree say of each other, and what paths lead to, in every session that steps lead to.

* `Children.Sorted.mem_iff`, `WellFormed.mem_children_iff`: a directory holds an entry exactly if the node
  of the entry lies in it under that name.
* `nodes_represented`: **the redundant parts of a tree agree**: places and ids, parents and children, names.
* `paths_name_nodes`: **canonical paths and nodes are in bijection**, and a path leads to a node exactly if
  it normalises to the node's canonical path.
-/

namespace PolicyTree

theorem NameBefore.ne {a b : String} (h : NameBefore a b) : a ≠ b := by
  rintro rfl
  exact List.lt_irrefl _ h

namespace Children

variable {c : Children} {name : String} {id : NodeId}

/-- **What a name leads to is its one entry.** -/
theorem Sorted.mem_iff (h : c.Sorted) : (name, id) ∈ c.toList ↔ c.find? name = some id := by
  have hkeys : (c.toList.map (·.1)).Nodup := List.nodup_iff_pairwise_ne.2 (h.imp NameBefore.ne)
  unfold find?
  rw [Option.map_eq_some_iff]
  constructor
  · intro hm
    exact ⟨(name, id), (find?_key_eq_some_iff hkeys).2 ⟨hm, rfl⟩, rfl⟩
  · rintro ⟨⟨name', id'⟩, hf, rfl⟩
    obtain ⟨hm, rfl⟩ := (find?_key_eq_some_iff hkeys).1 hf
    exact hm

end Children

namespace Tree

variable {t : Tree} {id dir : NodeId} {n d : Node} {children : Children} {name : String}

theorem child?_of_directory (hd : t.node? dir = some d) (hk : d.kind = .directory children) (name : String) :
    t.child? dir name = children.find? name := by
  unfold child? Node.child? Node.children?
  rw [hd, Option.bind_some, hk, Option.bind_some]

namespace WellFormed

variable (ht : t.WellFormed)

include ht

theorem sorted_children (hd : t.node? dir = some d) (hk : d.kind = .directory children) : children.Sorted :=
  ht.sorted hd (by unfold Node.children?; rw [hk])

/-- **A directory holds an entry exactly if the node of the entry lies in it under that name.** -/
theorem mem_children_iff (hd : t.node? dir = some d) (hk : d.kind = .directory children) :
    (name, id) ∈ children.toList ↔ ∃ n, t.node? id = some n ∧ n.parent = some dir ∧ n.name = name := by
  rw [(ht.sorted_children hd hk).mem_iff, ← child?_of_directory hd hk, ht.child_iff]

/-- Nothing lies in a file or a link. -/
theorem parent_ne_of_not_directory (hn : t.node? id = some n) (hdir : ¬n.isDirectory) {j : NodeId} {m : Node}
    (hm : t.node? j = some m) : m.parent ≠ some id := by
  intro hp
  have hchild : t.child? id m.name = some j := ht.child_iff.2 ⟨m, hm, hp, rfl⟩
  rw [child?_of_not_directory hn hdir] at hchild
  cases hchild

end WellFormed

end Tree

namespace Session

variable {s : Session}

/-- **The parts of a tree agree with each other**, in every session that steps lead to. The ids are the
numbers below the size, and each node knows its own. The root is a directory with no name and no parent;
every other node lies in an older directory and has a name that can stand in a path. A directory holds a
name for a node exactly if the node says so, in the order of the names' bytes, and looking the name up finds
that node; files and links hold nothing. No node has two attributes of one name. -/
theorem nodes_represented (hs : s.Reachable) :
    (∀ id, (∃ n, s.tree.node? id = some n) ↔ id < s.tree.size) ∧
      (∀ id n, s.tree.node? id = some n → n.id = id) ∧
      (∃ n, s.tree.node? Tree.root = some n ∧ n.isDirectory ∧ n.name = "" ∧ n.parent = none) ∧
      (∀ id n, s.tree.node? id = some n → id ≠ Tree.root →
        (∃ dir d, n.parent = some dir ∧ dir < id ∧ s.tree.node? dir = some d ∧ d.isDirectory) ∧
          n.name ≠ "" ∧ '/' ∉ n.name.toList ∧ n.name ≠ "." ∧ n.name ≠ "..") ∧
      (∀ dir d children, s.tree.node? dir = some d → d.kind = .directory children →
        (children.toList.map (·.1)).Pairwise NameBefore ∧
          ∀ name id, ((name, id) ∈ children.toList ↔ children.find? name = some id) ∧
            ((name, id) ∈ children.toList ↔
              ∃ n, s.tree.node? id = some n ∧ n.parent = some dir ∧ n.name = name)) ∧
      (∀ id n, s.tree.node? id = some n → ¬n.isDirectory →
        (∀ name, s.tree.child? id name = none) ∧ ∀ j m, s.tree.node? j = some m → m.parent ≠ some id) ∧
      ∀ id n, s.tree.node? id = some n → (n.attributes.toList.map (·.name)).Nodup := by
  have ht := hs.wellFormed.tree
  refine ⟨fun id => Tree.exists_node?_iff, fun id n => ht.id_eq, ht.rooted, ?_, ?_, ?_, ?_⟩
  · intro id n hn hid
    obtain ⟨dir, d, hp, hlt, hd, hdir, hname⟩ := ht.parent hn hid
    exact ⟨⟨dir, d, hp, hlt, hd, hdir⟩, hname⟩
  · intro dir d children hd hk
    have hsorted := ht.sorted_children hd hk
    exact ⟨hsorted, fun name id => ⟨hsorted.mem_iff, ht.mem_children_iff hd hk⟩⟩
  · intro id n hn hdir
    exact ⟨Tree.child?_of_not_directory hn hdir, fun j m => ht.parent_ne_of_not_directory hn hdir⟩
  · intro id n hn
    exact ht.distinct hn

/-- A session with directories, a file, and a link whose name is not ASCII; a step in it has failed. -/
def furnished : Session :=
  (initial.run [
    .change (.makeDirectories "/b/c"),
    .change (.makeFile "/b/a" 3),
    .change (.makeLink "/é" "/b"),
    .change (.makeDirectory "/a"),
    .change (.makeFile "/b/a/x" 3),
    .change (.putAttribute 3 ⟨"user.x", [1]⟩ .create)]).2

theorem reachable_furnished : furnished.Reachable := reachable_initial.run _

/-- The root holds three nodes, sorted by name, and nothing lies in the file. -/
theorem nodes_represented_furnished :
    furnished.Reachable ∧
      furnished.tree.node? 0 =
        some ⟨0, "", none, .directory ⟨[("a", 5), ("b", 1), ("é", 4)]⟩, {}⟩ ∧
      ["a", "b", "é"].Pairwise NameBefore ∧
      (∃ n, furnished.tree.node? 4 = some n ∧ n.parent = some 0 ∧ n.name = "é") ∧
      ∀ j m, furnished.tree.node? j = some m → m.parent ≠ some 3 := by
  have hroot : furnished.tree.node? 0 =
      some ⟨0, "", none, .directory ⟨[("a", 5), ("b", 1), ("é", 4)]⟩, {}⟩ := rfl
  obtain ⟨-, -, -, -, hdirectory, hother, -⟩ := nodes_represented reachable_furnished
  obtain ⟨hsorted, hentry⟩ := hdirectory 0 _ _ hroot rfl
  exact ⟨reachable_furnished, hroot, hsorted, (hentry "é" 4).2.1 (by decide),
    (hother 3 _ rfl (by decide)).2⟩

/-! ## Paths -/

/-- **Canonical paths and nodes are in bijection**, in every session that steps lead to. The canonical path
of a node joins the names from the root down to it, and its chain is the node's lineage, which ends at the
node. A path that leads to a node normalises to the node's canonical path, so different nodes have different
canonical paths, and two paths lead to one node exactly if they normalise alike. -/
theorem paths_name_nodes (hs : s.Reachable) :
    (∀ id < s.tree.size,
      s.tree.chain (s.tree.pathOf id) = .ok ⟨s.tree.pathOf id, (s.tree.lineage id).map some⟩ ∧
        s.tree.lookup (s.tree.pathOf id) = .ok (some id)) ∧
      (∀ path id, s.tree.lookup path = .ok (some id) →
        id < s.tree.size ∧ (Path.normalize path).map Path.join = .ok (s.tree.pathOf id)) ∧
      (∀ id < s.tree.size, ∀ id' < s.tree.size, s.tree.pathOf id = s.tree.pathOf id' → id = id') ∧
      (∀ path path' id, s.tree.lookup path = .ok (some id) →
        (s.tree.lookup path' = .ok (some id) ↔ Path.normalize path' = Path.normalize path)) ∧
      (s.tree.lineage Tree.root = [Tree.root] ∧ s.tree.names Tree.root = [] ∧
        s.tree.pathOf Tree.root = "/") ∧
      ∀ id n, s.tree.node? id = some n → id ≠ Tree.root → ∃ dir, n.parent = some dir ∧
        s.tree.lineage id = s.tree.lineage dir ++ [id] ∧ s.tree.names id = s.tree.names dir ++ [n.name] ∧
        s.tree.pathOf id = Path.join (s.tree.names id) := by
  have ht := hs.wellFormed.tree
  refine ⟨?_, ?_, ?_, ?_, ⟨ht.lineage_root.1, ht.lineage_root.2, ?_⟩, ?_⟩
  · intro id hid
    obtain ⟨n, hn⟩ := Tree.exists_node?_iff.2 hid
    have hname := Path.normalize_join (ht.isName_names id n hn)
    exact ⟨ht.chain_pathOf hn, ht.lookup_eq_some_iff.2 ⟨⟨n, hn⟩, hname⟩⟩
  · intro path id h
    obtain ⟨hn, hp⟩ := ht.lookup_eq_some_iff.1 h
    exact ⟨Tree.exists_node?_iff.1 hn, by rw [hp]; rfl⟩
  · intro id hid id' hid' h
    obtain ⟨n, hn⟩ := Tree.exists_node?_iff.2 hid
    obtain ⟨m, hm⟩ := Tree.exists_node?_iff.2 hid'
    exact ht.pathOf_injective hn hm h
  · intro path path' id h
    obtain ⟨hn, hp⟩ := ht.lookup_eq_some_iff.1 h
    rw [ht.lookup_eq_some_iff, hp]
    exact ⟨fun h' => h'.2, fun h' => ⟨hn, h'⟩⟩
  · rw [Tree.pathOf, ht.lineage_root.2]; rfl
  · intro id n hn hid
    obtain ⟨dir, d, hp, hlt, -⟩ := ht.parent hn hid
    exact ⟨dir, hp, Tree.lineage_of_parent hn hp hlt, Tree.names_of_parent hn hp hlt, rfl⟩

/-- Two spellings of one path to the file, and the way to it from the root. -/
theorem paths_name_nodes_furnished :
    furnished.Reachable ∧ 3 < furnished.tree.size ∧
      furnished.tree.lookup "/b//./c/../a" = .ok (some 3) ∧
      furnished.tree.lookup (furnished.tree.pathOf 3) = .ok (some 3) ∧
      furnished.tree.pathOf 3 = "/b/a" ∧
      furnished.tree.lookup "/b/a/" = .ok (some 3) := by
  have hsize : 3 < furnished.tree.size := by decide
  have hlookup : furnished.tree.lookup "/b//./c/../a" = .ok (some 3) := rfl
  obtain ⟨hnodes, hpaths, -, hsame, -⟩ := paths_name_nodes reachable_furnished
  have hpath := (hpaths _ _ hlookup).2
  refine ⟨reachable_furnished, hsize, hlookup, (hnodes 3 hsize).2, ?_, (hsame _ _ 3 hlookup).2 rfl⟩
  exact (Except.ok.inj hpath).symm

end Session

end PolicyTree
