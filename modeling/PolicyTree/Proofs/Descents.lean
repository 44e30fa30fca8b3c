import PolicyTree.Proofs.Inheritance
import PolicyTree.Proofs.Namespace

/-!
# How far a path leads

The names of a path are followed one by one, each in the directory that the one before it led to. The walk never
fails: past the first name that leads nowhere, nothing is met.

* `Tree.getElem?_trail_succ`: **one name further on a trail**, and from it `Tree.getElem?_trail_none`: what is missing
  once is missing from there on.
* `Tree.DeepestAt`: the deepest node on a chain, with its depth. Every path has one (`WellFormed.exists_deepestAt`),
  and only one (`DeepestAt.unique`).
* `Tree.Descends`: what stands on a chain at and above some depth, and why it ends there. A node that is no directory
  ends it wherever it is met (`Descends.eq_of_not_directory`).
* `chain_descends`: **every chain leads down along its names to some depth, and no further.**
-/

namespace PolicyTree

variable {t t' : Tree} {c : Chain} {here : Option NodeId} {id dir : NodeId} {n : Node} {path name : String}
  {names : List String} {i m : Nat}

namespace Tree

/-! ## One name further -/

theorem getElem?_trail_zero (t : Tree) (here : Option NodeId) (names : List String) :
    (t.trail here names)[0]? = some here := by
  cases names with
  | nil => rfl
  | cons name rest => rfl

/-- **One name further**, an entry is the child of that name, if there was a node at all. -/
theorem getElem?_trail_succ {e : Option NodeId} : ∀ (names : List String) (here : Option NodeId) (i : Nat),
    names[i]? = some name → (t.trail here names)[i]? = some e →
      (t.trail here names)[i + 1]? = some (e.bind (t.child? · name)) := by
  intro names
  induction names with
  | nil => intro here i hname; cases hname
  | cons first rest ih =>
    intro here i hname he
    rw [trail, List.getElem?_cons_succ]
    cases i with
    | zero =>
      have hfirst : first = name := Option.some.inj hname
      have hhere : here = e := Option.some.inj he
      rw [getElem?_trail_zero, hfirst, hhere]
    | succ i => exact ih _ i hname he

/-- **What is missing once is missing from there on.** -/
theorem getElem?_trail_none (hi : (t.trail here names)[i]? = some none) {j : Nat} (hij : i ≤ j)
    (hj : j ≤ names.length) : (t.trail here names)[j]? = some none := by
  induction hij with
  | refl => exact hi
  | @step j hij ih =>
    have hlt : j < names.length := hj
    have hbefore := ih (Nat.le_of_lt hlt)
    exact getElem?_trail_succ names here j (List.getElem?_eq_getElem hlt) hbefore

theorem getElem?_trail_of_le (t : Tree) (here : Option NodeId) (hi : i ≤ names.length) :
    ∃ e, (t.trail here names)[i]? = some e := by
  have hlt : i < (t.trail here names).length := by rw [length_trail]; omega
  exact ⟨_, List.getElem?_eq_getElem hlt⟩

/-! ## The deepest node -/

/-- **The deepest node on a chain**, and its depth: all that stands past it is missing. -/
structure DeepestAt (t : Tree) (c : Chain) (m : Nat) (id : NodeId) (n : Node) : Prop where
  met : c.entries[m]? = some (some id)
  node : t.node? id = some n
  last : ∀ i e, m < i → c.entries[i]? = some e → e = none

/-- A node is the deepest if all behind it on the chain is missing. -/
theorem deepestAt_of_split (above : List (Option NodeId)) {below : List (Option NodeId)}
    (hsplit : c.entries = above ++ some id :: below) (hn : t.node? id = some n) (hbelow : ∀ e ∈ below, e = none) :
    t.DeepestAt c above.length id n where
  met := by
    rw [hsplit, List.getElem?_append_right (Nat.le_refl _), Nat.sub_self]
    rfl
  node := hn
  last := by
    intro i e hi he
    obtain ⟨k, hk⟩ : ∃ k, i - above.length = k + 1 := ⟨i - above.length - 1, by omega⟩
    rw [hsplit, List.getElem?_append_right (by omega), hk, List.getElem?_cons_succ] at he
    exact hbelow e (List.mem_of_getElem? he)

/-- **A chain has one deepest node.** -/
theorem DeepestAt.unique {m' : Nat} {id' : NodeId} {n' : Node} (h : t.DeepestAt c m id n)
    (h' : t.DeepestAt c m' id' n') : m = m' ∧ id = id' ∧ n = n' := by
  have hdepth : m = m' := by
    rcases Nat.lt_trichotomy m m' with hlt | heq | hgt
    · cases h.last m' _ hlt h'.met
    · exact heq
    · cases h'.last m _ hgt h.met
  subst hdepth
  have hid : some id = some id' := Option.some.inj (h.met.symm.trans h'.met)
  cases hid
  exact ⟨rfl, rfl, Option.some.inj (h.node.symm.trans h'.node)⟩

/-- The deepest node does not hold the next name. -/
theorem DeepestAt.child?_eq_none (h : t.DeepestAt ⟨path, t.trail here names⟩ m id n) (hname : names[m]? = some name) :
    n.child? name = none := by
  have hnext := getElem?_trail_succ names here m hname h.met
  rw [← child?_of_node? h.node]
  exact h.last (m + 1) _ (Nat.lt_succ_self m) hnext

/-- **A chain leads down along some names to a depth, and no further.** Down to that depth every entry is present,
and each is what the directory before it holds under the next name; below it every entry is missing. It ends where
the names do, or at a node in which the next one leads nowhere. -/
structure Descends (t : Tree) (names : List String) (c : Chain) (m : Nat) : Prop where
  depth_le : m ≤ names.length
  present : ∀ i ≤ m, ∃ id n, c.entries[i]? = some (some id) ∧ t.node? id = some n
  missing : ∀ i, m < i → i ≤ names.length → c.entries[i]? = some none
  held : ∀ i name, i < m → names[i]? = some name → ∃ dir d id n,
    c.entries[i]? = some (some dir) ∧ t.node? dir = some d ∧ d.isDirectory ∧ d.child? name = some id ∧
      c.entries[i + 1]? = some (some id) ∧ t.node? id = some n ∧ n.parent = some dir
  stopped : ∀ name, names[m]? = some name → ∃ id n, c.entries[m]? = some (some id) ∧ t.node? id = some n ∧
    (n.kind.type = .file ∨ n.kind.type = .link ∨ n.kind.type = .directory ∧ n.child? name = none)

namespace WellFormed

variable (ht : t.WellFormed)

include ht

/-- An entry that is present leads to a node. -/
theorem node?_of_getElem?_trail (he : (t.trail (some root) names)[i]? = some (some id)) :
    ∃ n, t.node? id = some n := by
  obtain ⟨r, hr, -⟩ := ht.rooted
  exact ht.node?_of_mem_trail names root ⟨r, hr⟩ (List.mem_of_getElem? he)

/-- **Every path has a deepest node.** -/
theorem exists_deepestAt (hc : t.chain path = .ok c) : ∃ m id n, t.DeepestAt c m id n := by
  obtain ⟨names, -, rfl⟩ := chain_eq_ok_iff.1 hc
  obtain ⟨r, hr, -⟩ := ht.rooted
  obtain ⟨above, id, below, htrail, hsome, hbelow⟩ := ht.exists_deepest_trail names root (by rw [hr]; rfl)
  obtain ⟨n, hn⟩ := Option.isSome_iff_exists.1 hsome
  have hmissing : ∀ e ∈ below, e = none := by
    intro e he
    cases e with
    | none => rfl
    | some j =>
      -- an entry that is present leads to a node
      have hmem : some j ∈ t.trail (some root) names := by
        rw [htrail]
        exact List.mem_append_right _ (List.mem_cons_of_mem _ he)
      obtain ⟨m, hm⟩ := ht.node?_of_mem_trail names root ⟨r, hr⟩ hmem
      have hnone := hbelow _ he
      rw [Option.bind_some, hm] at hnone
      cases hnone
  exact ⟨above.length, id, n, deepestAt_of_split above htrail hn hmissing⟩

/-- **The chain of a path descends to its deepest node.** -/
theorem descends_of_deepestAt (hdeep : t.DeepestAt ⟨Path.join names, t.trail (some root) names⟩ m id n) :
    t.Descends names ⟨Path.join names, t.trail (some root) names⟩ m := by
  have hmet : (t.trail (some root) names)[m]? = some (some id) := hdeep.met
  have hle : m ≤ names.length := by
    have hlt := (List.getElem?_eq_some_iff.1 hmet).1
    rw [length_trail] at hlt
    omega
  have hpresent : ∀ i ≤ m, ∃ id n, (t.trail (some root) names)[i]? = some (some id) ∧ t.node? id = some n := by
    intro i hi
    obtain ⟨e, he⟩ := t.getElem?_trail_of_le (some root) (Nat.le_trans hi hle)
    cases e with
    | none =>
      -- the deepest entry would be missing too
      have hgone := getElem?_trail_none he hi hle
      rw [hmet] at hgone
      cases hgone
    | some j =>
      obtain ⟨n, hn⟩ := ht.node?_of_getElem?_trail he
      exact ⟨j, n, he, hn⟩
  refine ⟨hle, hpresent, fun i hi hle => ?_, fun i name hi hname => ?_, fun name hname => ?_⟩
  · obtain ⟨e, he⟩ := t.getElem?_trail_of_le (some root) hle
    have hnone : e = none := hdeep.last i e hi he
    rw [hnone] at he
    exact he
  · obtain ⟨dir, d, hdir, hd⟩ := hpresent i (by omega)
    obtain ⟨child, n, hchild, hn⟩ := hpresent (i + 1) hi
    have hnext := getElem?_trail_succ names (some root) i hname hdir
    rw [hchild, Option.bind_some, Option.some.injEq] at hnext
    obtain ⟨m, hm, hparent, -⟩ := ht.child_iff.1 hnext.symm
    have hheld : d.child? name = some child := by rw [← child?_of_node? hd, ← hnext]
    rw [hn] at hm; cases hm
    exact ⟨dir, d, child, n, hdir, hd, directory_of_child? hd hnext.symm, hheld, hchild, hn, hparent⟩
  · refine ⟨id, n, hmet, hdeep.node, ?_⟩
    cases n.kind.type with
    | file => exact .inl rfl
    | link => exact .inr (.inl rfl)
    | directory => exact .inr (.inr ⟨rfl, hdeep.child?_eq_none hname⟩)

end WellFormed

/-- **A node that is no directory is the deepest** wherever it is met. -/
theorem Descends.eq_of_not_directory (h : t.Descends names c m) (hlength : c.entries.length = names.length + 1)
    (he : c.entries[i]? = some (some id)) (hn : t.node? id = some n) (hdir : ¬n.isDirectory) : i = m := by
  have hi : i < names.length + 1 := by
    rw [← hlength]
    exact (List.getElem?_eq_some_iff.1 he).1
  rcases Nat.lt_trichotomy i m with hlt | heq | hgt
  · -- above the end only directories are met
    have hname : i < names.length := Nat.lt_of_lt_of_le hlt h.depth_le
    obtain ⟨dir, d, _, _, hdir', hd, hd', -⟩ := h.held i _ hlt (List.getElem?_eq_getElem hname)
    have hsame : some dir = some id := Option.some.inj (hdir'.symm.trans he)
    cases hsame
    rw [hd] at hn; cases hn
    exact absurd hd' hdir
  · exact heq
  · have hgone := h.missing i hgt (by omega)
    rw [he] at hgone
    cases hgone

/-! ## Links -/

/-- A link may point anywhere: directories hold what they held. -/
theorem child?_update_link (hn : t.node? id = some n) (hlink : n.kind.type = .link) (target : String)
    (j : NodeId) (name : String) :
    (t.update id ({ · with kind := .link target })).child? j name = t.child? j name := by
  unfold child?
  rw [node?_update]
  by_cases hj : id = j
  · subst hj
    have hdir : ¬n.isDirectory := by rw [Node.isDirectory, hlink]; decide
    have hnone : n.child? name = none := by
      rw [← child?_of_node? hn]
      exact child?_of_not_directory hn hdir name
    rw [if_pos rfl, hn, Option.map_some, Option.bind_some, Option.bind_some, hnone]
    rfl
  · rw [if_neg hj]

end Tree

namespace Session

/-- **How far a path leads**, in every session that steps lead to. The chain of a path has its canonical form, and
one entry more than it has names, the root in front. It leads down along the names to some depth, and no further. A
file or a link is met only there, as the last that is present. Where a link points is not looked at: if it pointed
elsewhere, no chain would be another. -/
theorem chain_descends {s : Session} (hs : s.Reachable) (hp : Path.normalize path = .ok names) :
    ∃ c m, s.tree.chain path = .ok c ∧ c.path = Path.join names ∧ c.entries.length = names.length + 1 ∧
      c.entries[0]? = some (some Tree.root) ∧ s.tree.Descends names c m ∧
      (∀ i id n, c.entries[i]? = some (some id) → s.tree.node? id = some n →
        n.kind.type = .file ∨ n.kind.type = .link → i = m) ∧
      ∀ id n, s.tree.node? id = some n → n.kind.type = .link → ∀ target,
        (s.tree.update id ({ · with kind := .link target })).chain path = .ok c := by
  have ht := hs.wellFormed.tree
  have hc : s.tree.chain path = .ok ⟨Path.join names, s.tree.trail (some Tree.root) names⟩ :=
    Tree.chain_eq_ok_iff.2 ⟨names, hp, rfl⟩
  have hlength := s.tree.length_trail names (some Tree.root)
  obtain ⟨m, id, n, hdeep⟩ := ht.exists_deepestAt hc
  have hdescends := ht.descends_of_deepestAt hdeep
  refine ⟨_, m, hc, rfl, hlength, s.tree.getElem?_trail_zero _ _, hdescends, ?_, ?_⟩
  · intro i id n he hn htype
    refine hdescends.eq_of_not_directory hlength he hn fun hdir => ?_
    obtain ⟨children, hk⟩ := Node.kind_of_directory hdir
    rw [hk] at htype
    exact htype.elim nofun nofun
  · intro id n hn hlink target
    rw [← hc]
    exact Tree.chain_of_child? (Tree.child?_update_link hn hlink target) path

/-- A path through the link to `/b` ends at the link, also if the link points to the root. Another ends at a file, and
a third in a directory that does not hold the next name, for which two entries are missing. -/
theorem chain_descends_furnished :
    furnished.Reachable ∧ Path.normalize "/é/./c" = .ok ["é", "c"] ∧
      furnished.tree.chain "/é/./c" = .ok ⟨"/é/c", [some 0, some 4, none]⟩ ∧
      furnished.tree.Descends ["é", "c"] ⟨"/é/c", [some 0, some 4, none]⟩ 1 ∧
      (furnished.tree.update 4 ({ · with kind := .link "/" })).chain "/é/./c" =
        .ok ⟨"/é/c", [some 0, some 4, none]⟩ ∧
      Path.normalize "/b/c/x/y" = .ok ["b", "c", "x", "y"] ∧
      furnished.tree.Descends ["b", "c", "x", "y"] ⟨"/b/c/x/y", [some 0, some 1, some 2, none, none]⟩ 2 := by
  have hlink : Path.normalize "/é/./c" = .ok ["é", "c"] := rfl
  have hdeep : Path.normalize "/b/c/x/y" = .ok ["b", "c", "x", "y"] := rfl
  have hchain : furnished.tree.chain "/é/./c" = .ok ⟨"/é/c", [some 0, some 4, none]⟩ := rfl
  have hchain' : furnished.tree.chain "/b/c/x/y" =
      .ok ⟨"/b/c/x/y", [some 0, some 1, some 2, none, none]⟩ := rfl
  obtain ⟨c, m, hc, -, -, -, hdescends, hends, hpoints⟩ := chain_descends reachable_furnished hlink
  obtain ⟨c', m', hc', -, -, -, hdescends', -⟩ := chain_descends reachable_furnished hdeep
  cases hchain.symm.trans hc
  cases hchain'.symm.trans hc'
  -- the depth is that of the last entry that is present
  have hm : 1 = m := hends 1 4 _ rfl rfl (.inr rfl)
  have hm' : m' = 2 := by
    have hle : m' ≤ 4 := hdescends'.depth_le
    have hpresent := hdescends'.present m' (Nat.le_refl _)
    have hmissing := hdescends'.missing
    obtain ⟨id, n, he, -⟩ := hpresent
    have hge : ¬m' < 2 := fun hlt => by have h2 := hmissing 2 hlt (by decide); cases h2
    have hcases : m' = 2 ∨ m' = 3 ∨ m' = 4 := by omega
    rcases hcases with rfl | rfl | rfl
    · rfl
    · cases he
    · cases he
  rw [← hm] at hdescends
  rw [hm'] at hdescends'
  exact ⟨reachable_furnished, hlink, hchain, hdescends, hpoints 4 _ rfl rfl "/", hdeep, hdescends'⟩

end Session

end PolicyTree
