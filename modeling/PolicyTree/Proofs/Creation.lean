import PolicyTree.Proofs.Files

/-!
# What new nodes do to the policies in force

A path may lead past a name that is free, and what is in force there is inherited from above. When a node is
made under that name, the path's chain has one entry more that is present. An empty directory has nothing to
say, so the answer stays; a file or a link decides for its path and for all that goes on from it.

* `Tree.verdicts`: what is said along a list of names. It determines what is in force
  (`inForce_eq_verdicts`).
* `Tree.Fills`: an entry of a chain as it was, or the new node where there was none.
* `verdicts_add`: **a new node that says nothing, or that a path does not come to, changes nothing on it.**
* `makeDirectoriesUnder_ok`: a walk that makes directories ends at one, to which its names lead afterwards.
* `WellFormed.prefix_of_mem_trail`: only the paths that go on from a node's path come to it.
* `creation_effect`: **making directories changes no policy in force; a file or a link changes those of its
  own path and below.**
-/

namespace PolicyTree

open Relation (ReflTransGen)

variable {t t' : Tree} {r : Registry} {c c' : Chain} {dir : NodeId} {d : Node} {name path : String}
  {kind : NodeKind} {e e' : Option NodeId} {s s' : Session}

/-- A node that goes on with its attributes says what it said. -/
theorem Node.Continues.verdict? {n n' : Node} (h : n.Continues n') (ha : n'.attributes = n.attributes)
    (r : Registry) : n'.verdict? r = n.verdict? r := by
  by_cases hdir : n.isDirectory
  · have hdir' : n'.isDirectory := by rw [h.isDirectory]; exact hdir
    rw [verdict?_of_directory hdir, verdict?_of_directory hdir', ha]
  · have hkind : n'.kind = n.kind := h.kind hdir
    unfold Node.verdict? Node.policyId? Node.rawPolicyId?
    rw [hkind, ha]

namespace Tree

/-- What is said along a list of names, from the root on. -/
def verdicts (t : Tree) (r : Registry) (names : List String) : List (Option (Except Error (Option Policy))) :=
  (t.trail (some root) names).map (t.verdict? r)

/-- **What is in force is the last that is said along the names of a path.** -/
theorem inForce_eq_verdicts {names : List String} (hp : Path.normalize path = .ok names)
    (hc : t.chain path = .ok c) (r : Registry) :
    t.inForce r c = ((t.verdicts r names).reverse.findSome? id).getD (.ok none) := by
  obtain ⟨names', hp', rfl⟩ := chain_eq_ok_iff.1 hc
  cases hp.symm.trans hp'
  unfold inForce verdicts
  rw [← List.map_reverse, List.findSome?_map]
  rfl

theorem inForce_of_verdicts {names : List String} (hp : Path.normalize path = .ok names)
    (hc : t.chain path = .ok c) (hc' : t'.chain path = .ok c') (h : t'.verdicts r names = t.verdicts r names) :
    t'.inForce r c' = t.inForce r c := by
  rw [inForce_eq_verdicts hp hc, inForce_eq_verdicts hp hc', h]

/-! ## One more node -/

/-- An entry of a chain after an addition: as it was, or the new node where there was none. -/
def Fills (t : Tree) (e e' : Option NodeId) : Prop := e' = e ∨ e = none ∧ e' = some t.size

/-- An old entry says what it said. -/
theorem verdict?_add_of_ne (he : e ≠ some t.size) (r : Registry) :
    (t.add dir name kind).verdict? r e = t.verdict? r e := by
  unfold verdict?
  cases e with
  | none => rfl
  | some j =>
    have hne : j ≠ t.size := fun h => he (h ▸ rfl)
    rw [Option.bind_some, Option.bind_some]
    cases hn : t.node? j with
    | none => rw [node?_add, if_neg hne, hn]; simp
    | some n =>
      have hcont := n.continues_ite (dir = j) name t.size
      have hattr := n.attributes_ite (dir = j) name t.size
      rw [node?_add_old hn, Option.bind_some, Option.bind_some, hcont.verdict? hattr]

/-- The two entries say the same, if the new node says nothing or is not the one. -/
theorem Fills.verdict? (h : t.Fills e e')
    (hquiet : e' = some t.size → (t.add dir name kind).verdict? r (some t.size) = none) :
    (t.add dir name kind).verdict? r e' = t.verdict? r e := by
  by_cases hnew : e' = some t.size
  · have hnone : t.verdict? r (some t.size) = none := by
      unfold Tree.verdict?; rw [Option.bind_some, node?_size, Option.bind_none]
    rw [hnew, hquiet hnew]
    rcases h with rfl | ⟨rfl, -⟩
    · rw [hnew, hnone]
    · rfl
  · rcases h with rfl | ⟨-, h⟩
    · exact verdict?_add_of_ne hnew r
    · exact absurd h hnew

section

variable (hd : t.node? dir = some d) (hdir : d.isDirectory) (hfree : d.child? name = none)
  (hkind : kind.HoldsNothing)

include hd hdir hfree hkind

/-- One name further, an entry is as it was, or the new node where there was none. -/
theorem Fills.child (h : t.Fills e e') (other : String) :
    t.Fills (e.bind (t.child? · other)) (e'.bind ((t.add dir name kind).child? · other)) := by
  rcases h with rfl | ⟨rfl, rfl⟩
  · cases e' with
    | none => exact Or.inl rfl
    | some j =>
      rw [Option.bind_some, Option.bind_some, child?_add hd hdir hkind]
      by_cases hnew : j = dir ∧ other = name
      · obtain ⟨rfl, rfl⟩ := hnew
        have hnone : t.child? j other = none := (child?_of_node? hd other).trans hfree
        rw [if_pos ⟨rfl, rfl⟩, hnone]
        exact Or.inr ⟨rfl, rfl⟩
      · rw [if_neg hnew]
        exact Or.inl rfl
  · -- the new node holds nothing
    have hne : ¬(t.size = dir ∧ other = name) := fun h => Nat.ne_of_lt (node?_lt hd) h.1.symm
    have hnone : t.child? t.size other = none := by unfold child?; rw [node?_size, Option.bind_none]
    rw [Option.bind_some, Option.bind_none, child?_add hd hdir hkind, if_neg hne, hnone]
    exact Or.inl rfl

/-- What is said along a trail, if the new node says nothing or is not on it. -/
theorem map_verdict?_add (r : Registry) : ∀ (names : List String) (e e' : Option NodeId), t.Fills e e' →
    (some t.size ∈ (t.add dir name kind).trail e' names →
      (t.add dir name kind).verdict? r (some t.size) = none) →
    ((t.add dir name kind).trail e' names).map ((t.add dir name kind).verdict? r) =
      (t.trail e names).map (t.verdict? r) := by
  intro names
  induction names with
  | nil =>
    intro e e' hfills hquiet
    rw [trail, List.mem_singleton] at hquiet
    rw [trail, trail, List.map_singleton, List.map_singleton, hfills.verdict? fun h => hquiet h.symm]
  | cons first rest ih =>
    intro e e' hfills hquiet
    rw [trail, List.mem_cons] at hquiet
    have hhead := hfills.verdict? fun h => hquiet (Or.inl h.symm)
    have htail := ih _ _ (hfills.child hd hdir hfree hkind first) fun h => hquiet (Or.inr h)
    rw [trail, trail, List.map_cons, List.map_cons, hhead, htail]

/-- **A new node that says nothing, or that the names do not come to, changes nothing of what is said.** -/
theorem verdicts_add (r : Registry) (names : List String)
    (hquiet : some t.size ∈ (t.add dir name kind).trail (some root) names →
      (t.add dir name kind).verdict? r (some t.size) = none) :
    (t.add dir name kind).verdicts r names = t.verdicts r names :=
  map_verdict?_add hd hdir hfree hkind r names _ _ (Or.inl rfl) hquiet

end

/-- **More empty directories change nothing of what is said.** -/
theorem verdicts_widens (h : t.Widens t') (r : Registry) (names : List String) :
    t'.verdicts r names = t.verdicts r names := by
  cases h with
  | @add dir d name hd hdir hfree hname =>
    refine verdicts_add hd hdir hfree NodeKind.holdsNothing_emptyDirectory r names fun _ => ?_
    unfold verdict?
    rw [Option.bind_some, node?_add_new]
    rfl

theorem verdicts_widened (h : ReflTransGen Widens t t') (r : Registry) (names : List String) :
    t'.verdicts r names = t.verdicts r names := by
  induction h with
  | refl => rfl
  | tail _ hstep ih => rw [verdicts_widens hstep, ih]

/-- What a directory holds it goes on to hold. -/
theorem child?_widens {id j : NodeId} (h : t.Widens t') (hc : t.child? id name = some j) :
    t'.child? id name = some j := by
  cases h with
  | @add dir d other hd hdir hfree hname =>
    have hne : ¬(id = dir ∧ name = other) := by
      rintro ⟨rfl, rfl⟩
      rw [child?_of_node? hd, hfree] at hc
      cases hc
    rw [child?_add hd hdir NodeKind.holdsNothing_emptyDirectory, if_neg hne, hc]

theorem child?_widened {id j : NodeId} (h : ReflTransGen Widens t t') (hc : t.child? id name = some j) :
    t'.child? id name = some j := by
  induction h with
  | refl => exact hc
  | tail _ hstep ih => exact child?_widens hstep ih

/-- **A walk that makes directories ends at a directory**, to which its names lead afterwards. -/
theorem makeDirectoriesUnder_ok (path : String) : ∀ (names : List String) (dir : NodeId) (t : Tree)
    {id : NodeId} {t' : Tree}, t.isDirectory dir → (∀ name ∈ names, Path.IsName name) →
      (makeDirectoriesUnder path dir names).run t = .ok id t' →
      (t'.trail (some dir) names).getLast? = some (some id) ∧ t'.isDirectory id := by
  intro names
  induction names with
  | nil =>
    intro dir t id t' hdir _ h
    cases h
    exact ⟨rfl, hdir⟩
  | cons name rest ih =>
    intro dir t id t' hdir hn h
    have hrest : ∀ n ∈ rest, Path.IsName n := fun n hm => hn n (List.mem_cons_of_mem _ hm)
    -- from one name further the walk is one of the rest, and the first name still leads there afterwards
    have key : ∀ (child : NodeId) (t₁ : Tree), t₁.isDirectory child → t₁.child? dir name = some child →
        (makeDirectoriesUnder path child rest).run t₁ = .ok id t' →
        (t'.trail (some dir) (name :: rest)).getLast? = some (some id) ∧ t'.isDirectory id := by
      intro child t₁ hdir₁ hchild hrun
      have hwidened := widens_makeDirectoriesUnder path rest child t₁ hrest
      rw [stateAfter, hrun] at hwidened
      obtain ⟨hlast, hd⟩ := ih child t₁ hdir₁ hrest hrun
      exact ⟨getLast?_trail_cons_iff.2 ⟨child, child?_widened hwidened hchild, hlast⟩, hd⟩
    simp only [makeDirectoriesUnder, EStateM.run_bind, EStateM.run_get] at h
    cases hc : t.childOf dir name path with
    | error e => rw [hc, run_ofExcept_error] at h; cases h
    | ok r =>
      obtain ⟨d, hd, hdir', hr⟩ := childOf_ok hc
      simp only [hc, run_ofExcept_ok] at h
      cases r with
      | some child =>
        simp only [EStateM.run_bind, EStateM.run_get] at h
        by_cases hdir₁ : t.isDirectory child
        · rw [if_pos hdir₁] at h
          have hchild : t.child? dir name = some child := (child?_of_node? hd name).trans hr
          exact key child t hdir₁ hchild h
        · rw [if_neg hdir₁] at h; cases h
      | none =>
        simp only [EStateM.run_bind, run_insert hd hdir'] at h
        have hnew : (t.add dir name .emptyDirectory).isDirectory t.size := by
          rw [isDirectory_of_node? (t.node?_add_new dir name .emptyDirectory)]; rfl
        have hchild : (t.add dir name .emptyDirectory).child? dir name = some t.size := by
          rw [child?_add hd hdir' NodeKind.holdsNothing_emptyDirectory, if_pos ⟨rfl, rfl⟩]
        exact key t.size _ hnew hchild h

namespace WellFormed

variable (ht : t.WellFormed) {id : NodeId}

include ht

/-- A node is met only along the names that go on from its own. -/
theorem prefix_of_mem_trail {names : List String} (h : some id ∈ t.trail (some root) names) :
    t.names id <+: names := by
  obtain ⟨above, below, he⟩ := List.append_of_mem h
  obtain ⟨-, -, -, hnames⟩ := ht.trail_above names root above below he
  rw [hnames, ht.lineage_root.2, List.nil_append]
  exact List.take_prefix _ _

theorem makeDirectory_ok (h : (makeDirectory path).run t = .ok id t') :
    ReflTransGen Widens t t' ∧ t'.lookup path = .ok (some id) ∧ t'.isDirectory id := by
  have hwidened := widens_makeDirectory path t
  rw [stateAfter, h] at hwidened
  refine ⟨hwidened, ?_⟩
  rcases run_make path .emptyDirectory t with ⟨e, hrun⟩ | ⟨above, name, dir, d, hp, hlast, hd, hdir, hfree, hrun⟩
  · cases hrun.symm.trans h
  · cases hrun.symm.trans h
    have hname := Path.isName_of_normalize hp name (List.mem_append_right _ (List.mem_singleton_self name))
    have hadded := ht.add hd hdir hfree hname NodeKind.holdsNothing_emptyDirectory
    have hnew := t.node?_add_new dir name .emptyDirectory
    constructor
    · rw [hadded.lookup_eq_some_iff, ht.names_add hlast hd]
      exact ⟨⟨_, hnew⟩, hp⟩
    · rw [isDirectory_of_node? hnew]; rfl

theorem makeDirectories_ok (h : (makeDirectories path).run t = .ok id t') :
    ReflTransGen Widens t t' ∧ t'.lookup path = .ok (some id) ∧ t'.isDirectory id := by
  have hwidened := widens_makeDirectories path t
  rw [stateAfter, h] at hwidened
  refine ⟨hwidened, ?_⟩
  simp only [makeDirectories, EStateM.run_bind] at h
  cases hp : Path.normalize path with
  | error e => rw [hp, run_ofExcept_error] at h; cases h
  | ok names =>
    rw [hp, run_ofExcept_ok] at h
    obtain ⟨n, hn, hdir, -⟩ := ht.rooted
    have hroot : t.isDirectory root := (isDirectory_of_node? hn).trans hdir
    obtain ⟨hlast, hd⟩ := makeDirectoriesUnder_ok path names root t hroot (Path.isName_of_normalize hp) h
    refine ⟨?_, hd⟩
    have hc : t'.chain path = .ok ⟨Path.join names, t'.trail (some root) names⟩ :=
      chain_eq_ok_iff.2 ⟨names, hp, rfl⟩
    rw [lookup_of_chain hc, Chain.last?, hlast, Option.join_some]

end WellFormed

end Tree

/-- Who may write may read. -/
theorem Lock.readable_of_writable {l l' : Lock} (h : l.acquire .write = .ok l') :
    ∃ l'', l.acquire .read = .ok l'' := by
  cases l with
  | shared n => exact ⟨_, rfl⟩
  | exclusive => cases h
  | poisonable poisoned =>
    cases poisoned with
    | false => exact ⟨_, rfl⟩
    | true => cases h

namespace Session

/-! ## Directories -/

/-- The question whether a path is covered comes to what is in force on its chain. -/
theorem isCovered_result {q : String} {lock : Lock} (hl : s.lock.acquire .read = .ok lock)
    (hc : s.tree.chain q = .ok c) :
    (s.perform (Call.isCovered q)).result = (s.tree.inForce s.registry c).map Option.isSome := by
  rw [perform_isCovered, grant, hl]
  simp only [hc, permit]
  rfl

/-- **A directory is made**, at the path that was given, by adding empty directories. -/
theorem directory_made (hs : s.WellFormed) {x : TreeChange}
    (hx : x ∈ [TreeChange.makeDirectory path, .makeDirectories path]) {v : Value}
    (h : s.step (.change x) = (.plain (.ok v), s')) :
    ∃ lock id t, s.lock.acquire .write = .ok lock ∧ v = .id id ∧ s' = { s with tree := t } ∧
      ReflTransGen Tree.Widens s.tree t ∧ t.lookup path = .ok (some id) ∧ t.isDirectory id := by
  rw [step] at h
  rcases List.mem_pair.1 hx with rfl | rfl
  · obtain ⟨lock, id, t, hl, hrun, hv, hs'⟩ := plain_edit_ok h
    exact ⟨lock, id, t, hl, hv, hs', hs.tree.makeDirectory_ok hrun⟩
  · obtain ⟨lock, id, t, hl, hrun, hv, hs'⟩ := plain_edit_ok h
    exact ⟨lock, id, t, hl, hv, hs', hs.tree.makeDirectories_ok hrun⟩

/-! ## Files and links -/

/-- **One answer from a path on**: after a change an answer is in force on it and on all paths that go on from it,
and on all others what was in force before. -/
def Occupies (s s' : Session) (names : List String) (answer : Option Policy) : Prop :=
  ∀ q names', Path.normalize q = .ok names' → ∃ c c', s.tree.chain q = .ok c ∧ s'.tree.chain q = .ok c' ∧
    (names <+: names' → s'.tree.inForce s'.registry c' = .ok answer) ∧
    (¬names <+: names' → s'.tree.inForce s'.registry c' = s.tree.inForce s.registry c)

/-- **A new node that is no directory answers from its path on.** -/
theorem occupies_made (hs : s.WellFormed) (hkind : kind.type ≠ .directory) {v : Value} {answer : Option Policy}
    (hv : ∀ n : Node, n.kind = kind → n.verdict? s.registry = some (.ok answer))
    (h : s.plain (Call.locked .write do return Value.id (← Call.edit (Tree.make path kind))) =
      (.plain (.ok v), s')) :
    ∃ names, Path.normalize path = .ok names ∧ s.Occupies s' names answer := by
  obtain ⟨above, name, dir, d, hp, hlast, hd, hdir, hfree, rfl⟩ := plain_make_ok h
  have hholds := NodeKind.holdsNothing_of_type hkind
  have hname := Path.isName_of_normalize hp name (List.mem_append_right _ (List.mem_singleton_self name))
  have ht : (s.tree.add dir name kind).WellFormed := hs.tree.add hd hdir hfree hname hholds
  have hnew := s.tree.node?_add_new dir name kind
  have hnames := hs.tree.names_add hlast hd name kind
  refine ⟨above ++ [name], hp, fun q names' hq => ?_⟩
  have hok : (Path.normalize q).isOk := by rw [hq]; rfl
  obtain ⟨c, hc⟩ := s.tree.chain_of_isOk hok
  obtain ⟨c', hc'⟩ := (s.tree.add dir name kind).chain_of_isOk hok
  refine ⟨c, c', hc, hc', ?_, ?_⟩
  · rintro ⟨rest, rfl⟩
    have hend : ¬({ id := s.tree.size, name, parent := some dir, kind } : Node).isDirectory := by
      simpa [Node.isDirectory] using hkind
    obtain ⟨c'', hc'', h⟩ := ht.inForce_of_end hnew hend (hv _ rfl) (by rw [hnames]; exact hq)
    cases hc'.symm.trans hc''
    exact h
  · intro hother
    -- the new node is not on the path, since its names are not
    have hnot : some s.tree.size ∉ (s.tree.add dir name kind).trail (some Tree.root) names' :=
      fun hmem => hother (hnames ▸ ht.prefix_of_mem_trail hmem)
    exact Tree.inForce_of_verdicts hq hc hc'
      (Tree.verdicts_add hd hdir hfree hholds _ _ fun hmem => absurd hmem hnot)

/-- **New nodes and the policies in force.** Making one directory, or all that are missing along a path, leaves
what is in force on every path, damage included; so the question whether a path is covered that leads nowhere
yet foretells what its directory will have. A file answers with the policy known under its number, from its own
path on, and a link with none; on all other paths what is in force stays. -/
theorem creation_effect (hs : s.Reachable) :
    (∀ p, ∀ x ∈ [TreeChange.makeDirectory p, .makeDirectories p], ∀ v s',
      s.step (.change x) = (.plain (.ok v), s') →
        (∃ id, v = .id id ∧ s'.tree.lookup p = .ok (some id) ∧ s'.tree.isDirectory id) ∧
        ∀ q, (Path.normalize q).isOk → ∃ c c', s.tree.chain q = .ok c ∧ s'.tree.chain q = .ok c' ∧
          s'.tree.inForce s'.registry c' = s.tree.inForce s.registry c ∧
          (s.perform (Call.isCovered q)).result = (s'.tree.inForce s'.registry c').map Option.isSome) ∧
      (∀ p raw v s', s.step (.change (.makeFile p raw)) = (.plain (.ok v), s') →
        ∃ names, Path.normalize p = .ok names ∧ s.Occupies s' names (s'.registry.ofFile? raw)) ∧
      ∀ p target v s', s.step (.change (.makeLink p target)) = (.plain (.ok v), s') →
        ∃ names, Path.normalize p = .ok names ∧ s.Occupies s' names none := by
  have hw := hs.wellFormed
  refine ⟨fun p x hx v s' h => ?_, fun p raw v s' h => ?_, fun p target v s' h => ?_⟩
  · obtain ⟨lock, id, t, hl, hv, rfl, hwidened, hthere⟩ := directory_made hw hx h
    obtain ⟨lock', hl'⟩ := Lock.readable_of_writable hl
    refine ⟨⟨id, hv, hthere⟩, fun q hq => ?_⟩
    obtain ⟨c, hc⟩ := s.tree.chain_of_isOk hq
    obtain ⟨c', hc'⟩ := t.chain_of_isOk hq
    obtain ⟨names, hp, -⟩ := Tree.chain_eq_ok_iff.1 hc
    have hin : t.inForce s.registry c' = s.tree.inForce s.registry c :=
      Tree.inForce_of_verdicts hp hc hc' (Tree.verdicts_widened hwidened _ _)
    refine ⟨c, c', hc, hc', hin, ?_⟩
    rw [isCovered_result hl' hc, hin]
  · rw [step] at h
    have hregistry : s'.registry = s.registry := by
      obtain ⟨_, _, _, _, -, -, -, -, -, rfl⟩ := plain_make_ok h
      rfl
    have hkind : (NodeKind.file raw).type ≠ .directory := by simp [NodeKind.type]
    rw [hregistry]
    exact occupies_made hw hkind (fun n hk => Node.verdict?_of_file hk _) h
  · rw [step] at h
    have hkind : (NodeKind.link target).type ≠ .directory := by simp [NodeKind.type]
    exact occupies_made hw hkind (fun n hk => Node.verdict?_of_link (by rw [hk]; rfl)) h

/-- Two directories below a damaged root inherit the damage, as the question for their path has foretold. A file
in a damaged directory has its own policy, and a link has none; what lies beside the file has the damage still. -/
theorem creation_effect_damaged :
    ∃ made filed linked, damaged.Reachable ∧
      damaged.step (.change (.makeDirectories "/b/c")) = (.plain (.ok (.id 4)), made) ∧
      (∃ c', made.tree.chain "/b/c" = .ok c' ∧ (damaged.perform (Call.isCovered "/b/c")).result =
        (made.tree.inForce made.registry c').map Option.isSome) ∧
      damaged.step (.change (.makeFile "/a/./f" 1)) = (.plain (.ok (.id 3)), filed) ∧
      (∃ c', filed.tree.chain "/a/f/x" = .ok c' ∧
        filed.tree.inForce filed.registry c' = .ok (filed.registry.ofFile? 1)) ∧
      (∃ c c', damaged.tree.chain "/a/g" = .ok c ∧ filed.tree.chain "/a/g" = .ok c' ∧
        filed.tree.inForce filed.registry c' = damaged.tree.inForce damaged.registry c) ∧
      damaged.step (.change (.makeLink "/l" "/a")) = (.plain (.ok (.id 3)), linked) ∧
      ∃ c', linked.tree.chain "/l" = .ok c' ∧ linked.tree.inForce linked.registry c' = .ok none := by
  obtain ⟨hdirectories, hfile, hlink⟩ := creation_effect reachable_damaged
  obtain ⟨made, hmade⟩ : ∃ made, damaged.step (.change (.makeDirectories "/b/c")) =
      (.plain (.ok (.id 4)), made) := ⟨_, rfl⟩
  obtain ⟨filed, hfiled⟩ : ∃ filed, damaged.step (.change (.makeFile "/a/./f" 1)) =
      (.plain (.ok (.id 3)), filed) := ⟨_, rfl⟩
  obtain ⟨linked, hlinked⟩ : ∃ linked, damaged.step (.change (.makeLink "/l" "/a")) =
      (.plain (.ok (.id 3)), linked) := ⟨_, rfl⟩
  obtain ⟨-, hforetells⟩ := hdirectories "/b/c" _ (List.mem_pair.2 (Or.inr rfl)) _ _ hmade
  obtain ⟨-, c', -, hc', -, hforetold⟩ := hforetells "/b/c" rfl
  obtain ⟨names, hnames, hoccupied⟩ := hfile _ _ _ _ hfiled
  cases (show Path.normalize "/a/./f" = .ok ["a", "f"] from rfl).symm.trans hnames
  obtain ⟨-, f', -, hf', hin, -⟩ := hoccupied "/a/f/x" ["a", "f", "x"] rfl
  obtain ⟨g, g', hg, hg', -, hout⟩ := hoccupied "/a/g" ["a", "g"] rfl
  obtain ⟨names', hnames', hlinks⟩ := hlink _ _ _ _ hlinked
  cases (show Path.normalize "/l" = .ok ["l"] from rfl).symm.trans hnames'
  obtain ⟨-, l', -, hl', hlin, -⟩ := hlinks "/l" ["l"] rfl
  exact ⟨made, filed, linked, reachable_damaged, hmade, ⟨c', hc', hforetold⟩, hfiled,
    ⟨f', hf', hin (by decide)⟩, ⟨g, g', hg, hg', hout (by decide)⟩, hlinked, l', hl', hlin (by decide)⟩

end Session

end PolicyTree
