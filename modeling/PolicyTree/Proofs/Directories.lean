import PolicyTree.Proofs.Creation
import PolicyTree.Proofs.Making
import Mathlib.Data.List.Infix

/-!
# Making all directories along a path

The walk looks at one name after the other, and makes a directory where there is none. From the first one on that it
makes, there is nothing left that could be in its way: a new directory holds nothing.

* `run_makeDirectoriesUnder_append`: **the walk passes directories that are there**, and changes nothing.
* `Tree.Room`, `Tree.sprout`: a directory does not hold the next name; a line of empty directories in one.
  `run_makeDirectoriesUnder_room`: from there on the walk cannot fail, and makes the line.
* `Tree.Sprouts`: what such a line comes to, node by node (`Sprouts.cons`, `sprouts_sprout`).
* `Tree.missing`: the paths on the way that lead nowhere yet. `mapM_makeDirectory`: **making them one by one, each from
  the root**, makes the same line.
* `Tree.Passable`: nothing is in the way. It depends on the deepest node alone (`passable_iff`).
* `directories_made_at_once`: **all directories that are missing are made, or none.**
-/

namespace PolicyTree

variable {t t' : Tree} {id dir : NodeId} {n d : Node} {path name : String} {names rest above : List String}
  {i m : Nat}

namespace Tree

/-! ## Walks -/

/-- A node that names lead on from is a directory, if the last one is. -/
theorem isDirectory_of_trail (hlast : (t.trail (some id) names).getLast? = some (some dir))
    (hdir : t.isDirectory dir) : t.isDirectory id := by
  cases names with
  | nil =>
    have hsame : id = dir := Option.some.inj (Option.some.inj hlast)
    rwa [hsame]
  | cons name rest =>
    obtain ⟨child, hc, -⟩ := getLast?_trail_cons_iff.1 hlast
    obtain ⟨n, hn, -⟩ := Option.bind_eq_some_iff.1 hc
    rw [isDirectory_of_node? hn]
    exact directory_of_child? hn hc

/-- **The walk passes directories that are there**, and changes nothing. -/
theorem run_makeDirectoriesUnder_append (path : String) (t : Tree) (hdir : t.isDirectory dir) (rest : List String) :
    ∀ (above : List String) (start : NodeId), (t.trail (some start) above).getLast? = some (some dir) →
      (makeDirectoriesUnder path start (above ++ rest)).run t = (makeDirectoriesUnder path dir rest).run t := by
  intro above
  induction above with
  | nil =>
    intro start hlast
    have hsame : start = dir := Option.some.inj (Option.some.inj hlast)
    rw [hsame, List.nil_append]
  | cons name above ih =>
    intro start hlast
    obtain ⟨child, hc, honward⟩ := getLast?_trail_cons_iff.1 hlast
    have hchild : t.isDirectory child := isDirectory_of_trail honward hdir
    rw [← ih child honward, List.cons_append]
    simp only [makeDirectoriesUnder, EStateM.run_bind, EStateM.run_get, childOf_of_child? hc, run_ofExcept_ok,
      hchild, if_true]

/-- A file or a link is in the way. -/
theorem run_makeDirectoriesUnder_blocked {child : NodeId} (hc : t.child? dir name = some child)
    (hdir : ¬t.isDirectory child) (path : String) (rest : List String) :
    (makeDirectoriesUnder path dir (name :: rest)).run t = .error (.componentNotDirectory path) t := by
  simp only [makeDirectoriesUnder, EStateM.run_bind, EStateM.run_get, childOf_of_child? hc, run_ofExcept_ok, hdir,
    Bool.false_eq_true, if_false, run_throw]

/-- **The walk goes on from any directory on the chain of its path.** -/
theorem run_makeDirectories_from (hp : Path.normalize path = .ok names)
    (he : (t.trail (some root) names)[i]? = some (some dir)) (hdir : t.isDirectory dir) :
    (makeDirectories path).run t = (makeDirectoriesUnder path dir (names.drop i)).run t := by
  simp only [makeDirectories, EStateM.run_bind, hp, run_ofExcept_ok]
  rw [← run_makeDirectoriesUnder_append path t hdir (names.drop i) (names.take i) root (getLast?_trail_take he),
    List.take_append_drop]

/-! ## A line of new directories -/

/-- **There is room for some names in a directory**: it does not hold the first of them. -/
def Room (t : Tree) (dir : NodeId) (names : List String) : Prop :=
  ∃ d, t.node? dir = some d ∧ d.isDirectory ∧ ∀ name, names.head? = some name → d.child? name = none

/-- **In a new directory there is room for all names.** -/
theorem room_add (t : Tree) (dir : NodeId) (name : String) (names : List String) :
    (t.add dir name .emptyDirectory).Room t.size names :=
  ⟨_, t.node?_add_new dir name .emptyDirectory, rfl, fun next _ =>
    child?_holdsNothing NodeKind.holdsNothing_emptyDirectory rfl next⟩

/-- A line of empty directories, the first one in a directory and each other one in the one before. -/
def sprout : Tree → NodeId → List String → Tree
  | t, _, [] => t
  | t, dir, name :: rest => (t.add dir name .emptyDirectory).sprout t.size rest

/-- **Where there is room the walk cannot fail.** It makes a directory for each name. -/
theorem run_makeDirectoriesUnder_room (path : String) : ∀ (names : List String) (t : Tree) (dir : NodeId),
    t.Room dir names → ∃ id, (makeDirectoriesUnder path dir names).run t = .ok id (t.sprout dir names) := by
  intro names
  induction names with
  | nil => intro t dir _; exact ⟨dir, rfl⟩
  | cons name rest ih =>
    rintro t dir ⟨d, hd, hdir, hfree⟩
    obtain ⟨id, hrun⟩ := ih (t.add dir name .emptyDirectory) t.size (room_add t dir name rest)
    refine ⟨id, ?_⟩
    simp only [makeDirectoriesUnder, EStateM.run_bind, EStateM.run_get, childOf_of_directory hd hdir,
      hfree name rfl, run_ofExcept_ok, run_insert hd hdir, sprout, hrun]

/-- **A line of new directories stands in a directory.** They have the next ids in order, no attributes, and each
holds the next one and nothing else. The directory holds the first one more, and nothing else has changed. -/
structure Sprouts (t : Tree) (dir : NodeId) (names : List String) (t' : Tree) : Prop where
  size : t'.size = t.size + names.length
  made : ∀ i name, names[i]? = some name → t'.node? (t.size + i) = some
    { id := t.size + i
      name
      parent := some (if i = 0 then dir else t.size + (i - 1))
      kind := .directory ⟨(names[i + 1]?.map fun next => (next, t.size + (i + 1))).toList⟩
      attributes := {} }
  held : ∀ first, names.head? = some first → t.TakesIn dir first t.size t'
  kept : ∀ j < t.size, j ≠ dir ∨ names = [] → t'.node? j = t.node? j

/-- What an empty directory takes in is all that it holds. -/
theorem TakesIn.node? {u : Option NodeId} (h : t.TakesIn dir name id t')
    (hd : t.node? dir = some { id := dir, name := path, parent := u, kind := .emptyDirectory, attributes := {} }) :
    t'.node? dir = some
      { id := dir, name := path, parent := u, kind := .directory ⟨[(name, id)]⟩, attributes := {} } := by
  obtain ⟨d, before, after, hd', hk, -, hheld⟩ := h
  cases hd.symm.trans hd'
  have hnone : before ++ after = [] := (Children.mk.inj (NodeKind.directory.inj hk)).symm
  obtain ⟨rfl, rfl⟩ := List.append_eq_nil_iff.1 hnone
  exact hheld

theorem Sprouts.nil (t : Tree) (dir : NodeId) : t.Sprouts dir [] t := ⟨rfl, nofun, nofun, fun _ _ _ => rfl⟩

/-- **A line is its first directory**, and the rest of the line in that one. -/
theorem Sprouts.cons {t₁ : Tree} (hgains : t.Gains dir name .emptyDirectory t₁)
    (hline : t₁.Sprouts t.size rest t') : t.Sprouts dir (name :: rest) t' := by
  obtain ⟨d, before, after, hd, hk, hother, hheld⟩ := hgains.held
  have hsize := hgains.size
  have hlt : dir < t.size := node?_lt hd
  have hold : ∀ j < t.size, j < t₁.size := by
    intro j hj
    rw [hsize]
    exact Nat.lt_succ_of_lt hj
  have hkept : ∀ j < t.size, t'.node? j = t₁.node? j := fun j hj =>
    hline.kept j (hold j hj) (.inl (Nat.ne_of_lt hj))
  refine ⟨?_, ?_, ?_, ?_⟩
  · rw [hline.size, hsize, List.length_cons]
    omega
  · intro i other hi
    cases i with
    | zero =>
      cases hi
      cases rest with
      | nil =>
        have hlast : t.size < t₁.size := by omega
        rw [Nat.add_zero, hline.kept t.size hlast (.inr rfl), hgains.made]
        rfl
      | cons next more =>
        have htaken := (hline.held next rfl).node? hgains.made
        rw [hsize] at htaken
        exact htaken
    | succ i =>
      have hmade := hline.made i other hi
      rw [hsize] at hmade
      have hid : t.size + (i + 1) = t.size + 1 + i := by omega
      have hnext : t.size + (i + 1 + 1) = t.size + 1 + (i + 1) := by omega
      have hparent : (if i + 1 = 0 then dir else t.size + (i + 1 - 1)) =
          if i = 0 then t.size else t.size + 1 + (i - 1) := by
        cases i with
        | zero => rfl
        | succ i =>
          rw [if_neg (i + 1).succ_ne_zero, if_neg i.succ_ne_zero, Nat.add_sub_cancel, Nat.add_sub_cancel,
            Nat.add_right_comm, Nat.add_assoc]
      rw [hid, hnext, hparent]
      exact hmade
  · intro first hfirst
    cases hfirst
    exact ⟨d, before, after, hd, hk, hother, (hkept dir hlt).trans hheld⟩
  · intro j hj hbeside
    have hne : j ≠ dir := hbeside.resolve_right (List.cons_ne_nil _ _)
    rw [hkept j hj, hgains.kept j (Nat.ne_of_lt hj) hne]

/-- **A line of directories where there is room** comes to that. -/
theorem sprouts_sprout : ∀ (names : List String) (t : Tree) (dir : NodeId), t.Room dir names →
    t.Sprouts dir names (t.sprout dir names) := by
  intro names
  induction names with
  | nil => intro t dir _; exact .nil t dir
  | cons name rest ih =>
    rintro t dir ⟨d, hd, hdir, hfree⟩
    exact .cons (gains_add hd hdir (hfree name rfl) .emptyDirectory) (ih _ _ (room_add t dir name rest))

/-! ## One by one -/

/-- **The paths on the way along some names that lead nowhere yet**, the shortest first. -/
def missing (t : Tree) (names : List String) : List String :=
  (names.inits.map Path.join).filter fun path => (t.lookup path).toOption == some none

/-- The paths that go on from some names by one name more, by two names more, and so on. -/
def onward (above rest : List String) : List String :=
  rest.inits.tail.map fun below => Path.join (above ++ below)

theorem onward_cons (above rest : List String) (name : String) :
    onward above (name :: rest) = Path.join (above ++ [name]) :: onward (above ++ [name]) rest := by
  have hinits : rest.inits = [] :: rest.inits.tail := by
    cases rest with
    | nil => rfl
    | cons next more => rw [List.inits_cons, List.tail_cons]
  unfold onward
  rw [List.inits_cons, List.tail_cons, hinits, List.map_cons, List.map_cons, List.map_map, List.tail_cons]
  simp only [Function.comp_def, List.append_assoc, List.singleton_append]

theorem length_onward (above rest : List String) : (onward above rest).length = rest.length := by
  rw [onward, List.length_map, List.length_tail, List.length_inits, Nat.add_sub_cancel]

/-- The names of a new node lead to it. -/
theorem WellFormed.getLast?_trail_add (ht : t.WellFormed)
    (hlast : (t.trail (some root) above).getLast? = some (some dir)) (hd : t.node? dir = some d)
    (hdir : d.isDirectory) (hfree : d.child? name = none) (hname : Path.IsName name) :
    ((t.add dir name .emptyDirectory).trail (some root) (above ++ [name])).getLast? = some (some t.size) := by
  have hadded := ht.add hd hdir hfree hname NodeKind.holdsNothing_emptyDirectory
  rw [← ht.names_add hlast hd name .emptyDirectory,
    hadded.trail_names _ _ (t.node?_add_new dir name .emptyDirectory), List.getLast?_map, getLast?_lineage]
  rfl

/-- **Making directories one by one, each from the root**, makes the same line. -/
theorem mapM_makeDirectory : ∀ (rest above : List String) (t : Tree) (dir : NodeId), t.WellFormed →
    t.Room dir rest → (∀ name ∈ above ++ rest, Path.IsName name) →
    (t.trail (some root) above).getLast? = some (some dir) →
    ((onward above rest).mapM makeDirectory).run t =
      .ok (List.range' t.size rest.length) (t.sprout dir rest) := by
  intro rest
  induction rest with
  | nil => intro above t dir _ _ _ _; rfl
  | cons name rest ih =>
    rintro above t dir ht ⟨d, hd, hdir, hfree⟩ hnames hlast
    have hassoc : above ++ name :: rest = above ++ [name] ++ rest := by
      rw [List.append_assoc, List.singleton_append]
    rw [hassoc] at hnames
    have hname : Path.IsName name := hnames name (by simp)
    have hp : Path.normalize (Path.join (above ++ [name])) = .ok (above ++ [name]) :=
      Path.normalize_join fun x hx => hnames x (List.mem_append_left _ hx)
    have hfirst : (makeDirectory (Path.join (above ++ [name]))).run t =
        .ok t.size (t.add dir name .emptyDirectory) := by
      simp only [makeDirectory, make, EStateM.run_bind, hp, run_ofExcept_ok]
      rw [run_makeUnder_append _ _ t (List.cons_ne_nil _ _) above root hlast,
        run_makeUnder_free hd hdir (hfree name rfl)]
    have hadded := ht.add hd hdir (hfree name rfl) hname NodeKind.holdsNothing_emptyDirectory
    have hrest := ih (above ++ [name]) _ t.size hadded (room_add t dir name rest) hnames
      (ht.getLast?_trail_add hlast hd hdir (hfree name rfl) hname)
    rw [size_add] at hrest
    rw [onward_cons, List.mapM_cons, List.length_cons, List.range'_succ, sprout]
    simp only [EStateM.run_bind, hfirst, hrest, EStateM.run_pure]

theorem prefix_of_mem_tail_inits {below : List String} (h : below ∈ rest.inits.tail) :
    below <+: rest ∧ below ≠ [] := by
  cases rest with
  | nil => cases h
  | cons name more =>
    rw [List.inits_cons, List.tail_cons] at h
    obtain ⟨further, hfurther, rfl⟩ := List.mem_map.1 h
    exact ⟨List.prefix_cons_inj name |>.2 ((List.mem_inits _ _).1 hfurther), List.cons_ne_nil _ _⟩

theorem lookup_above (hp : Path.normalize path = .ok names) (t : Tree) (habove : above <+: names) :
    t.lookup (Path.join above) = .ok (t.trail (some root) names)[above.length]?.join := by
  have htake := lookup_take hp t habove.length_le
  rwa [← List.prefix_iff_eq_take.1 habove] at htake

/-- **What is missing is all that goes on from the deepest node.** -/
theorem Descends.missing_eq (h : t.Descends names ⟨Path.join names, t.trail (some root) names⟩ m)
    (hp : Path.normalize path = .ok names) : t.missing names = onward (names.take m) (names.drop m) := by
  have hlength : (names.take m).length = m := List.length_take_of_le h.depth_le
  have hthere : ((names.take m).inits.map Path.join).filter
      (fun path => (t.lookup path).toOption == some none) = [] := by
    rw [List.filter_eq_nil_iff]
    intro path hm
    obtain ⟨above, habove, rfl⟩ := List.mem_map.1 hm
    have hbegins := (List.mem_inits _ _).1 habove
    obtain ⟨id, n, he, -⟩ := h.present above.length (hlength ▸ hbegins.length_le)
    rw [lookup_above hp t (hbegins.trans (List.take_prefix m names)), he]
    exact Bool.false_ne_true
  have hgone : (onward (names.take m) (names.drop m)).filter
      (fun path => (t.lookup path).toOption == some none) = onward (names.take m) (names.drop m) := by
    rw [List.filter_eq_self]
    intro path hm
    obtain ⟨below, hbelow, rfl⟩ := List.mem_map.1 hm
    obtain ⟨hbegins, hne⟩ := prefix_of_mem_tail_inits hbelow
    have hon : names.take m ++ below <+: names := by
      have happend := (List.prefix_append_right_inj (names.take m)).2 hbegins
      rwa [List.take_append_drop] at happend
    have hlt : m < (names.take m ++ below).length := by
      have hpositive := List.length_pos_iff.2 hne
      rw [List.length_append, hlength]
      omega
    rw [lookup_above hp t hon, h.missing _ hlt hon.length_le]
    rfl
  rw [Tree.missing]
  nth_rewrite 1 [← List.take_append_drop m names]
  rw [List.inits_append, List.map_append, List.filter_append, hthere, List.nil_append, List.map_map]
  exact hgone

/-! ## What is in the way -/

/-- **Nothing is in the way along some names**: all nodes that the first of them lead to are directories. -/
def Passable (t : Tree) (names : List String) : Prop :=
  ∀ above ∈ names.inits, ∀ id, t.lookup (Path.join above) = .ok (some id) → t.isDirectory id

theorem mem_lookup_iff : id ∈ (t.lookup path).toOption.join ↔ t.lookup path = .ok (some id) := by
  cases t.lookup path with
  | error e => exact ⟨nofun, nofun⟩
  | ok found =>
    show found = some id ↔ _
    rw [Except.ok.injEq]

instance (t : Tree) (names : List String) : Decidable (t.Passable names) :=
  decidable_of_iff (∀ above ∈ names.inits, ∀ id ∈ (t.lookup (Path.join above)).toOption.join, t.isDirectory id)
    (forall₂_congr fun _ _ => forall_congr' fun _ => imp_congr mem_lookup_iff Iff.rfl)

/-- **It depends on the deepest node alone** whether something is in the way. -/
theorem WellFormed.passable_iff (ht : t.WellFormed) (hp : Path.normalize path = .ok names)
    (hdeep : t.DeepestAt ⟨Path.join names, t.trail (some root) names⟩ m id n) :
    t.Passable names ↔ n.isDirectory := by
  have hdescends := ht.descends_of_deepestAt hdeep
  constructor
  · intro hpassable
    have hfound := lookup_take hp t hdescends.depth_le
    rw [hdeep.met] at hfound
    rw [← isDirectory_of_node? hdeep.node]
    exact hpassable _ ((List.mem_inits _ _).2 (List.take_prefix m names)) id hfound
  · intro hdir above habove j hj
    rw [lookup_above hp t ((List.mem_inits _ _).1 habove), Except.ok.injEq, Option.join_eq_some_iff] at hj
    obtain ⟨k, hk⟩ := ht.node?_of_getElem?_trail hj
    rw [isDirectory_of_node? hk]
    by_contra hother
    -- what is in the way ends the chain, and so it is the deepest node
    have hdepth := hdescends.eq_of_not_directory (t.length_trail names _) hj hk hother
    rw [hdepth, hdeep.met] at hj
    cases hj
    rw [hdeep.node] at hk; cases hk
    exact hother hdir

/-! ## All at once -/

/-- **All directories along a path have been made**, and a node is what the path leads to. -/
structure MakesAll (t : Tree) (path : String) (names : List String) (id : NodeId) (t' : Tree) : Prop where
  leads : t'.lookup path = .ok (some id)
  /-- Those that were missing could have been made one by one. -/
  oneByOne : ((t.missing names).mapM makeDirectory).run t =
    .ok (List.range' t.size (t.missing names).length) t'
  /-- They stand below the deepest node that was there. -/
  placed : ∃ c m dir d, t.chain path = .ok c ∧ t.DeepestAt c m dir d ∧ d.isDirectory ∧
    t.Sprouts dir (names.drop m) t'
  again : (makeDirectories path).run t' = .ok id t'

/-- Where all directories are there, nothing is made. -/
theorem run_makeDirectories_there (hlookup : t.lookup path = .ok (some id)) (hdir : t.isDirectory id) :
    (makeDirectories path).run t = .ok id t := by
  obtain ⟨c, hc, hlast⟩ := chain_of_lookup hlookup
  obtain ⟨names, hp, rfl⟩ := chain_eq_ok_iff.1 hc
  rw [Chain.last?, Option.join_eq_some_iff, List.getLast?_eq_getElem?, length_trail, Nat.add_sub_cancel] at hlast
  rw [run_makeDirectories_from hp hlast hdir, List.drop_length]
  rfl

namespace WellFormed

variable (ht : t.WellFormed)

include ht

/-- **Where the deepest node is a directory**, all others are made in it. -/
theorem makesAll_makeDirectories (hp : Path.normalize path = .ok names)
    (hdeep : t.DeepestAt ⟨Path.join names, t.trail (some root) names⟩ m dir d) (hdir : d.isDirectory) :
    ∃ id t', (makeDirectories path).run t = .ok id t' ∧ t.MakesAll path names id t' := by
  have hdescends := ht.descends_of_deepestAt hdeep
  have hmet : (t.trail (some root) names)[m]? = some (some dir) := hdeep.met
  have hroom : t.Room dir (names.drop m) := by
    refine ⟨d, hdeep.node, hdir, fun name hname => ?_⟩
    rw [List.head?_drop] at hname
    exact hdeep.child?_eq_none hname
  obtain ⟨id, hrun⟩ := run_makeDirectoriesUnder_room path (names.drop m) t dir hroom
  rw [← run_makeDirectories_from hp hmet ((isDirectory_of_node? hdeep.node).trans hdir)] at hrun
  obtain ⟨-, hleads, hdirectory⟩ := ht.makeDirectories_ok hrun
  have hnames : ∀ name ∈ names.take m ++ names.drop m, Path.IsName name := by
    rw [List.take_append_drop]
    exact Path.isName_of_normalize hp
  have honebyone := mapM_makeDirectory (names.drop m) (names.take m) t dir ht hroom hnames (getLast?_trail_take hmet)
  refine ⟨id, _, hrun, hleads, ?_, ?_, run_makeDirectories_there hleads hdirectory⟩
  · rw [hdescends.missing_eq hp, length_onward]
    exact honebyone
  · exact ⟨_, m, dir, d, chain_eq_ok_iff.2 ⟨names, hp, rfl⟩, hdeep, hdir, sprouts_sprout _ t dir hroom⟩

/-- **Where the deepest node is no directory**, nothing is made. -/
theorem refuses_makeDirectories (hp : Path.normalize path = .ok names)
    (hdeep : t.DeepestAt ⟨Path.join names, t.trail (some root) names⟩ m id n) (hdir : ¬n.isDirectory) :
    t.Refuses (makeDirectories path) .notADirectory path := by
  have hdescends := ht.descends_of_deepestAt hdeep
  have hle := hdescends.depth_le
  cases m with
  | zero =>
    -- the root is a directory
    obtain ⟨r, hr, hroot, -⟩ := ht.rooted
    have hsame : some root = some id := Option.some.inj ((t.getElem?_trail_zero _ _).symm.trans hdeep.met)
    cases hsame
    rw [hdeep.node] at hr; cases hr
    exact absurd hroot hdir
  | succ i =>
    have hname : names[i]? = some names[i] := List.getElem?_eq_getElem hle
    obtain ⟨u, d, child, _, hu, hd, hdir', hchild, hnext, -⟩ := hdescends.held i _ i.lt_succ_self hname
    have hsame : some id = some child := Option.some.inj (hdeep.met.symm.trans hnext)
    cases hsame
    have hrun := run_makeDirectories_from hp hu ((isDirectory_of_node? hd).trans hdir')
    have hother : ¬t.isDirectory id := by rwa [isDirectory_of_node? hdeep.node]
    rw [List.drop_eq_getElem_cons hle,
      run_makeDirectoriesUnder_blocked ((child?_of_node? hd _).trans hchild) hother] at hrun
    exact .of_run hrun rfl

end WellFormed

end Tree

namespace Session

/-- **Making all directories along a path**, in every session that steps lead to, and at every path.

It succeeds exactly if all nodes are directories that the first names of the path lead to. Then the tree is the one
that comes of making those that are missing one by one, the shortest path first. They have the next ids in order and
no attributes, and stand one inside the other in the deepest directory that was there, whose one new entry is all that
has changed about the other nodes. The answer is what the path now leads to, and asking again changes nothing.
Otherwise it fails, quotes the path as it was given, and changes nothing, however many directories were missing. -/
theorem directories_made_at_once {s : Session} (hs : s.Reachable) (path : String) :
    ((∀ names, Path.normalize path ≠ .ok names) →
      s.tree.Refuses (Tree.makeDirectories path) .invalidInput path) ∧
    (∀ names, Path.normalize path = .ok names →
      (s.tree.Passable names → ∃ id t', (Tree.makeDirectories path).run s.tree = .ok id t' ∧
        s.tree.MakesAll path names id t') ∧
      (¬s.tree.Passable names → s.tree.Refuses (Tree.makeDirectories path) .notADirectory path)) ∧
    ∀ e t', (Tree.makeDirectories path).run s.tree = .error e t' → t' = s.tree := by
  have ht := hs.wellFormed.tree
  have hinvalid : (∀ names, Path.normalize path ≠ .ok names) →
      s.tree.Refuses (Tree.makeDirectories path) .invalidInput path := fun h =>
    Tree.refuses_of_not_normalize h (Tree.makeDirectoriesUnder path Tree.root)
  have hvalid : ∀ names, Path.normalize path = .ok names →
      (s.tree.Passable names → ∃ id t', (Tree.makeDirectories path).run s.tree = .ok id t' ∧
        s.tree.MakesAll path names id t') ∧
      (¬s.tree.Passable names → s.tree.Refuses (Tree.makeDirectories path) .notADirectory path) := by
    intro names hp
    obtain ⟨m, id, n, hdeep⟩ := ht.exists_deepestAt (Tree.chain_eq_ok_iff.2 ⟨names, hp, rfl⟩)
    have hiff := ht.passable_iff hp hdeep
    exact ⟨fun h => ht.makesAll_makeDirectories hp hdeep (hiff.1 h), fun h =>
      ht.refuses_makeDirectories hp hdeep (mt hiff.2 h)⟩
  refine ⟨hinvalid, hvalid, fun e t' hfail => ?_⟩
  by_cases hp : ∃ names, Path.normalize path = .ok names
  · obtain ⟨names, hp⟩ := hp
    by_cases hpassable : s.tree.Passable names
    · obtain ⟨id, t, hrun, -⟩ := (hvalid names hp).1 hpassable
      cases hrun.symm.trans hfail
    · exact Tree.Refuses.unchanged ((hvalid names hp).2 hpassable) hfail
  · exact Tree.Refuses.unchanged (hinvalid fun names h => hp ⟨names, h⟩) hfail

/-- Two directories are made in one that is there, with the ids 6 and 7. Below a file nothing is made, and a path that
leads above the root is no path. -/
theorem directories_made_at_once_furnished :
    furnished.Reachable ∧
      (∃ id t', (Tree.makeDirectories "/b/./x/y").run furnished.tree = .ok id t' ∧
        t'.lookup "/b/./x/y" = .ok (some id) ∧
        (["/b/x", "/b/x/y"].mapM Tree.makeDirectory).run furnished.tree = .ok [6, 7] t' ∧
        furnished.tree.Sprouts 1 ["x", "y"] t' ∧
        (Tree.makeDirectories "/b/./x/y").run t' = .ok id t') ∧
      furnished.tree.Refuses (Tree.makeDirectories "/b/a/x/y") .notADirectory "/b/a/x/y" ∧
      furnished.tree.Refuses (Tree.makeDirectories "/b/x/../../..") .invalidInput "/b/x/../../.." := by
  obtain ⟨-, hvalid, -⟩ := directories_made_at_once reachable_furnished "/b/./x/y"
  obtain ⟨-, hblocked, -⟩ := directories_made_at_once reachable_furnished "/b/a/x/y"
  obtain ⟨hinvalid, -, -⟩ := directories_made_at_once reachable_furnished "/b/x/../../.."
  refine ⟨reachable_furnished, ?_, ?_, ?_⟩
  · obtain ⟨hmade, -⟩ := hvalid ["b", "x", "y"] rfl
    obtain ⟨id, t', hrun, hall⟩ := hmade (by decide)
    obtain ⟨c, m, dir, d, hc, hdeep, -, hsprouts⟩ := hall.placed
    have hchain : furnished.tree.chain "/b/./x/y" = .ok ⟨"/b/x/y", [some 0, some 1, none, none]⟩ := rfl
    cases hchain.symm.trans hc
    obtain ⟨rfl, rfl, rfl⟩ := (Tree.deepestAt_of_split [some 0] rfl rfl (by decide)).unique hdeep
    have hmissing : furnished.tree.missing ["b", "x", "y"] = ["/b/x", "/b/x/y"] := by decide
    have honebyone := hall.oneByOne
    rw [hmissing] at honebyone
    exact ⟨id, t', hrun, hall.leads, honebyone, hsprouts, hall.again⟩
  · obtain ⟨-, hrefused⟩ := hblocked ["b", "a", "x", "y"] rfl
    exact hrefused (by decide)
  · refine hinvalid fun names h => ?_
    have herror : Path.normalize "/b/x/../../.." = .error (.pathEscapesRoot "/b/x/../../..") := rfl
    cases herror.symm.trans h

end Session

end PolicyTree
