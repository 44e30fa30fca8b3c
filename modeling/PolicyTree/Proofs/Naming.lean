import PolicyTree.Proofs.Namespace

/-!
# Names in paths

A canonical path says no more and no less than the list of names that it was joined from.

* `Path.normalize_join_iff`: **joining and normalising keep exactly the lists of names**: one member that cannot name
  a node, and another list comes back.
* `Path.map_join_eq_iff`: the paths that normalising leaves alone are the canonical ones.
* `Tree.WellFormed.isName_name`, `Tree.WellFormed.isName_entry`: every name that a tree stores can stand in a path,
  and `Tree.WellFormed.getLast?_names`: a node's path ends in the node's name.
* `names_round_trip`: **all of this, for lists, for paths and for the names in a tree.**
-/

namespace PolicyTree

namespace Path

variable {path : String} {names : List String}

/-- What a path normalises to comes back from its canonical path. -/
theorem normalize_join_of_normalize (h : normalize path = .ok names) : normalize (join names) = .ok names :=
  normalize_join (isName_of_normalize h)

/-- **A list comes back from its canonical path exactly if its members can name nodes.** -/
theorem normalize_join_iff : normalize (join names) = .ok names ↔ ∀ name ∈ names, IsName name :=
  ⟨isName_of_normalize, normalize_join⟩

/-- **The paths that normalising leaves alone are the canonical ones.** -/
theorem map_join_eq_iff : (normalize path).map join = .ok path ↔
    ∃ names, (∀ name ∈ names, IsName name) ∧ path = join names := by
  constructor
  · intro h
    cases hp : normalize path with
    | error e => rw [hp] at h; cases h
    | ok names =>
      rw [hp] at h
      have hjoin : join names = path := Except.ok.inj h
      exact ⟨names, isName_of_normalize hp, hjoin.symm⟩
  · rintro ⟨names, hnames, rfl⟩
    rw [normalize_join hnames]
    rfl

end Path

namespace Tree.WellFormed

variable {t : Tree} {id child : NodeId} {n : Node} {children : Children} {name : String} (ht : t.WellFormed)

include ht

/-- A node other than the root has a name that can stand in a path. -/
theorem isName_name (hn : t.node? id = some n) (hid : id ≠ root) : Path.IsName n.name := by
  obtain ⟨_, _, -, -, -, -, hname⟩ := ht.parent hn hid
  exact hname

/-- So has every entry of a directory. -/
theorem isName_entry (hn : t.node? id = some n) (hk : n.kind = .directory children)
    (hm : (name, child) ∈ children.toList) : Path.IsName name := by
  obtain ⟨m, hchild, hparent, rfl⟩ := (ht.mem_children_iff hn hk).1 hm
  have hlt : id < child := ht.parent_lt hchild hparent
  exact ht.isName_name hchild (Nat.ne_of_gt (Nat.zero_lt_of_lt hlt))

/-- **A node's path ends in the node's name**; the root's has no names, and the root's own is empty. -/
theorem getLast?_names (hn : t.node? id = some n) : (t.names id).getLast?.getD "" = n.name := by
  by_cases hid : id = root
  · subst hid
    obtain ⟨r, hr, -, hempty, -⟩ := ht.rooted
    rw [hr] at hn; cases hn
    rw [ht.lineage_root.2, hempty]
    rfl
  · obtain ⟨u, _, hparent, hlt, -⟩ := ht.parent hn hid
    rw [names_of_parent hn hparent hlt, List.getLast?_concat, Option.getD_some]

end Tree.WellFormed

/-- **Joining and normalising undo each other.** A list of texts comes back from the path that they are joined to
exactly if each can name a node; so different lists of names have different paths. Whatever path is normalised, the
names in it are such names, and their path stays as it is from then on. The paths that stay as they are, are those
that names are joined to.

Every name that a tree stores comes back from a path, in every session that steps lead to: a node's from the node's
own path, of which it is the last, and each by itself, the entries of directories included. -/
theorem names_round_trip :
    (∀ names, Path.normalize (Path.join names) = .ok names ↔
        ∀ name ∈ names, name ≠ "" ∧ '/' ∉ name.toList ∧ name ≠ "." ∧ name ≠ "..") ∧
      (∀ path names, Path.normalize path = .ok names →
        (∀ name ∈ names, name ≠ "" ∧ '/' ∉ name.toList ∧ name ≠ "." ∧ name ≠ "..") ∧
          (Path.normalize (Path.join names)).map Path.join = .ok (Path.join names)) ∧
      (∀ path, (Path.normalize path).map Path.join = .ok path ↔
        ∃ names, (∀ name ∈ names, Path.IsName name) ∧ path = Path.join names) ∧
      (∀ names names', (∀ name ∈ names, Path.IsName name) → (∀ name ∈ names', Path.IsName name) →
        Path.join names = Path.join names' → names = names') ∧
      ∀ s : Session, s.Reachable → ∀ id n, s.tree.node? id = some n →
        (∃ names, Path.normalize (s.tree.pathOf id) = .ok names ∧ names.getLast?.getD "" = n.name) ∧
          (id ≠ Tree.root → Path.normalize (Path.join [n.name]) = .ok [n.name]) ∧
          ∀ children, n.kind = .directory children → ∀ entry ∈ children.toList,
            Path.normalize (Path.join [entry.1]) = .ok [entry.1] := by
  refine ⟨fun names => Path.normalize_join_iff, fun path names hp => ?_, fun path => Path.map_join_eq_iff,
    fun names names' => Path.join_injective, fun s hs id n hn => ?_⟩
  · have hjoin := Path.normalize_join_of_normalize hp
    exact ⟨Path.isName_of_normalize hp, by rw [hjoin]; rfl⟩
  · have ht := hs.wellFormed.tree
    have hnames := Path.normalize_join (ht.isName_names id n hn)
    refine ⟨⟨s.tree.names id, hnames, ht.getLast?_names hn⟩, fun hid => ?_, fun children hk entry hm => ?_⟩
    · exact Path.normalize_join_iff.2 (List.forall_mem_singleton.2 (ht.isName_name hn hid))
    · exact Path.normalize_join_iff.2 (List.forall_mem_singleton.2 (ht.isName_entry hn hk hm))

/-- Names of dots, with a blank and with a null character come back, while a list with `..` in it does not. A
roundabout path of them has another canonical form, which stays. The link's name, which is not ASCII, comes back from
the tree. -/
theorem names_round_trip_odd :
    Path.normalize (Path.join ["...", ".a", " \x00", "a.."]) = .ok ["...", ".a", " \x00", "a.."] ∧
      Path.normalize (Path.join ["a", "..", "b"]) ≠ .ok ["a", "..", "b"] ∧
      Path.normalize "/x/..//.../.a/." = .ok ["...", ".a"] ∧
      (Path.normalize (Path.join ["...", ".a"])).map Path.join = .ok (Path.join ["...", ".a"]) ∧
      Path.join ["...", ".a"] ≠ Path.join ["....a"] ∧
      Session.furnished.Reachable ∧
      (∃ n, Session.furnished.tree.node? 4 = some n ∧ n.name = "é" ∧
        Path.normalize (Path.join [n.name]) = .ok [n.name]) := by
  obtain ⟨hlists, hpaths, -, hinjective, hstored⟩ := names_round_trip
  have hp : Path.normalize "/x/..//.../.a/." = .ok ["...", ".a"] := rfl
  have hdots : ∀ name ∈ ["...", ".a"], Path.IsName name := (hpaths _ _ hp).1
  refine ⟨(hlists _).2 (by decide), fun h => ?_, hp, (hpaths _ _ hp).2, fun h => ?_,
    Session.reachable_furnished, _, rfl, rfl, ?_⟩
  · exact absurd ((hlists _).1 h) (by decide)
  · exact absurd (hinjective _ _ hdots (by decide) h) (by decide)
  · exact (hstored _ Session.reachable_furnished 4 _ rfl).2.1 (by decide)

end PolicyTree
