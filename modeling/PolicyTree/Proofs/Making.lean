import PolicyTree.Proofs.Assignments
import PolicyTree.Proofs.Descents
import PolicyTree.Proofs.Files

/-!
# Making one node

A walk to the place of a new node asks each directory on the way for the next name. Where the chain of the path ends
decides what comes of it.

* `Tree.TakesIn`, `Tree.Gains`: a directory holds one name more; a tree has one node more, and nothing else has
  changed. `gains_add`: an addition comes to that.
* `run_makeUnder_append`: **a walk goes on from where its first names lead**, and changes nothing on the way.
* `run_makeUnder_taken`, `run_makeUnder_free`, `run_makeUnder_orphaned`, `run_makeUnder_blocked`: the four ways in
  which it ends.
* `Tree.Outcome`, `Tree.Makes`: what comes of making a node at a path, by the depth to which the path leads.
* `creation_exact`: **a directory, a file and a link are made exactly where only the last name leads nowhere.**
-/

namespace PolicyTree

variable {t t' : Tree} {c : Chain} {id dir : NodeId} {n d : Node} {path name : String} {kind : NodeKind}
  {names : List String} {i m : Nat}

/-! ## One name more -/

namespace Children

theorem ne_of_find?_none {c : Children} (h : c.find? name = none) : ∀ entry ∈ c.toList, entry.1 ≠ name := by
  intro entry hm heq
  rw [find?, Option.map_eq_none_iff, List.find?_eq_none] at h
  exact h entry hm (by simpa using heq)

end Children

namespace Tree

/-- **A directory holds one name more**, which leads to an id; its other entries stay in order, and so does all else
about it. -/
def TakesIn (t : Tree) (dir : NodeId) (name : String) (id : NodeId) (t' : Tree) : Prop :=
  ∃ d before after, t.node? dir = some d ∧ d.kind = .directory ⟨before ++ after⟩ ∧
    (∀ entry ∈ before ++ after, entry.1 ≠ name) ∧
    t'.node? dir = some { d with kind := .directory ⟨before ++ (name, id) :: after⟩ }

/-- **A tree has one node more**, which a directory holds under a name, and nothing else has changed. -/
structure Gains (t : Tree) (dir : NodeId) (name : String) (kind : NodeKind) (t' : Tree) : Prop where
  size : t'.size = t.size + 1
  made : t'.node? t.size = some { id := t.size, name, parent := some dir, kind, attributes := {} }
  held : t.TakesIn dir name t.size t'
  kept : ∀ j, j ≠ t.size → j ≠ dir → t'.node? j = t.node? j

/-- **An addition under a free name** comes to one node more. -/
theorem gains_add (hd : t.node? dir = some d) (hdir : d.isDirectory) (hfree : d.child? name = none)
    (kind : NodeKind) : t.Gains dir name kind (t.add dir name kind) where
  size := size_add t dir name kind
  made := node?_add_new t dir name kind
  held := by
    obtain ⟨children, hk, hhold⟩ := Node.hold_of_directory hdir name t.size
    have hnone : children.find? name = none := by
      rw [Node.child?, Node.children?, hk, Option.bind_some] at hfree
      exact hfree
    have hother := Children.ne_of_find?_none hnone
    obtain ⟨before, after, hlist, hplace⟩ := exists_place NameBefore name t.size children.toList hother
    rw [hlist] at hother
    refine ⟨d, before, after, hd, by rw [hk, ← hlist], hother, ?_⟩
    rw [node?_add_old hd, if_pos rfl, hhold, Children.insert, hplace]
  kept := by
    intro j hnew hj
    rw [node?_add, if_neg hnew, if_neg (Ne.symm hj)]

/-! ## Walks -/

theorem childOf_of_directory (hd : t.node? dir = some d) (hdir : d.isDirectory) (name path : String) :
    t.childOf dir name path = .ok (d.child? name) := by
  obtain ⟨children, hk⟩ := Node.kind_of_directory hdir
  unfold childOf Node.child? Node.children?
  simp only [hd, hk, Option.bind_some]

theorem childOf_of_not_directory (hd : t.node? dir = some d) (hdir : ¬d.isDirectory) (name path : String) :
    t.childOf dir name path = .error (.componentNotDirectory path) := by
  have hnone : d.children? = none := by
    unfold Node.children?
    cases hk : d.kind with
    | directory children => exact absurd (by rw [Node.isDirectory, hk]; rfl) hdir
    | file raw => rfl
    | link target => rfl
  unfold childOf
  simp only [hd, hnone]

/-- What has a child is a directory, and says so when it is asked on a walk. -/
theorem childOf_of_child? {child : NodeId} (hc : t.child? dir name = some child) (path : String) :
    t.childOf dir name path = .ok (some child) := by
  obtain ⟨d, hd, hchild⟩ := Option.bind_eq_some_iff.1 hc
  rw [childOf_of_directory hd (directory_of_child? hd hc), hchild]

/-- **A walk goes on from where its first names lead**, and changes nothing on the way. -/
theorem run_makeUnder_append (path : String) (kind : NodeKind) (t : Tree) {dir' : NodeId} {rest : List String}
    (hrest : rest ≠ []) : ∀ (above : List String) (dir : NodeId),
      (t.trail (some dir) above).getLast? = some (some dir') →
        (makeUnder path kind dir (above ++ rest)).run t = (makeUnder path kind dir' rest).run t := by
  intro above
  induction above with
  | nil =>
    intro dir hlast
    have hsame : dir = dir' := Option.some.inj (Option.some.inj hlast)
    rw [hsame, List.nil_append]
  | cons name above ih =>
    intro dir hlast
    obtain ⟨child, hc, honward⟩ := getLast?_trail_cons_iff.1 hlast
    rw [← ih child honward, List.cons_append]
    exact run_makeUnder_onward (childOf_of_child? hc path) kind (List.append_ne_nil_of_right_ne_nil above hrest)

/-- The last name is taken. -/
theorem run_makeUnder_taken {child : NodeId} (hc : t.child? dir name = some child) (path : String)
    (kind : NodeKind) : (makeUnder path kind dir [name]).run t = .error (.pathExists path) t := by
  simp only [makeUnder, EStateM.run_bind, EStateM.run_get, childOf_of_child? hc, run_ofExcept_ok, run_throw]

/-- The last name is free. -/
theorem run_makeUnder_free (hd : t.node? dir = some d) (hdir : d.isDirectory) (hfree : d.child? name = none)
    (path : String) (kind : NodeKind) :
    (makeUnder path kind dir [name]).run t = .ok t.size (t.add dir name kind) := by
  simp only [makeUnder, EStateM.run_bind, EStateM.run_get, childOf_of_directory hd hdir, hfree, run_ofExcept_ok,
    run_insert hd hdir]

/-- A name before the last leads nowhere. -/
theorem run_makeUnder_orphaned (hd : t.node? dir = some d) (hdir : d.isDirectory) (hfree : d.child? name = none)
    (path : String) (kind : NodeKind) {rest : List String} (hrest : rest ≠ []) :
    (makeUnder path kind dir (name :: rest)).run t = .error (.parentMissing path) t := by
  obtain ⟨next, more, rfl⟩ := List.exists_cons_of_ne_nil hrest
  simp only [makeUnder, EStateM.run_bind, EStateM.run_get, childOf_of_directory hd hdir, hfree, run_ofExcept_ok,
    run_throw]

/-- There are names left at a node that is no directory. -/
theorem run_makeUnder_blocked (hd : t.node? dir = some d) (hdir : ¬d.isDirectory) (path : String)
    (kind : NodeKind) (name : String) (rest : List String) :
    (makeUnder path kind dir (name :: rest)).run t = .error (.componentNotDirectory path) t := by
  have hchild := childOf_of_not_directory hd hdir name path
  cases rest <;> simp only [makeUnder, EStateM.run_bind, EStateM.run_get, hchild, run_ofExcept_error]

/-! ## Places on a chain -/

/-- The first names of a path lead to what stands at their place on its trail. -/
theorem getLast?_trail_take {here e : Option NodeId} (he : (t.trail here names)[i]? = some e) :
    (t.trail here (names.take i)).getLast? = some e := by
  rw [trail_take, List.getLast?_take, if_neg i.succ_ne_zero, Nat.add_sub_cancel, he, Option.some_or]

theorem eq_take_append (hname : names[i]? = some name) : names = names.take i ++ name :: names.drop (i + 1) := by
  obtain ⟨hi, rfl⟩ := List.getElem?_eq_some_iff.1 hname
  rw [← List.drop_eq_getElem_cons hi, List.take_append_drop]

/-- **Making a node goes on from any node on the chain of its path.** -/
theorem run_make_from (hp : Path.normalize path = .ok names) (kind : NodeKind)
    (he : (t.trail (some root) names)[i]? = some (some dir)) (hname : names[i]? = some name) :
    (make path kind).run t = (makeUnder path kind dir (name :: names.drop (i + 1))).run t := by
  simp only [make, EStateM.run_bind, hp, run_ofExcept_ok]
  rw [← run_makeUnder_append path kind t (List.cons_ne_nil _ _) (names.take i) root (getLast?_trail_take he),
    ← eq_take_append hname]

theorem lookup_join {e : Option NodeId} (hnames : ∀ name ∈ names, Path.IsName name)
    (hlast : (t.trail (some root) names).getLast? = some e) : t.lookup (Path.join names) = .ok e := by
  have hc : t.chain (Path.join names) = .ok ⟨Path.join names, t.trail (some root) names⟩ :=
    chain_eq_ok_iff.2 ⟨names, Path.normalize_join hnames, rfl⟩
  rw [lookup_of_chain hc, Chain.last?, hlast, Option.join_some]

/-! ## Outcomes -/

/-- **What comes of making a node**, if the deepest node on the chain of its path stands at a depth `m` out of `k`
names. -/
structure Outcome (t : Tree) (path : String) (action : Edit NodeId) (k m : Nat) (n : Node) : Prop where
  succeeds_iff : (∃ new t', action.run t = .ok new t') ↔ m + 1 = k ∧ n.isDirectory
  /-- All names lead to nodes. -/
  taken : m = k → t.Refuses action .alreadyExists path
  /-- There are names left, and no directory to go on in. -/
  blocked : m < k → n.kind.type = .file ∨ n.kind.type = .link → t.Refuses action .notADirectory path
  /-- More than one name leads nowhere. -/
  orphaned : m + 1 < k → n.isDirectory → t.Refuses action .notFound path

/-- **An action makes a node of a kind at a path**, or fails and changes nothing. -/
structure Makes (t : Tree) (path : String) (action : Edit NodeId) (kind : NodeKind) : Prop where
  invalid : (∀ names, Path.normalize path ≠ .ok names) → t.Refuses action .invalidInput path
  atRoot : Path.normalize path = .ok [] →
    ∃ e, action.run t = .error e t ∧ e.kind = .alreadyExists ∧ e.report.context = .nothing
  placed : ∀ names, Path.normalize path = .ok names → names ≠ [] → ∃ c m id n, t.chain path = .ok c ∧
    t.DeepestAt c m id n ∧ t.Outcome path action names.length m n
  /-- The new node stands at the path, in the directory to which all names but the last lead. -/
  made : ∀ new t', action.run t = .ok new t' → new = t.size ∧ t'.lookup path = .ok (some new) ∧
    ∃ above name dir, Path.normalize path = .ok (above ++ [name]) ∧
      t.lookup (Path.join above) = .ok (some dir) ∧ t.Gains dir name kind t'
  failed : ∀ e t', action.run t = .error e t' → t' = t

section

variable {α : Type} {action : Edit α} {e : Error}

theorem Refuses.of_run (h : action.run t = .error e t) (hcontext : e.report.context = .path path) :
    t.Refuses action e.kind path := ⟨e, h, rfl, hcontext⟩

theorem Refuses.unchanged {errorKind : ErrorKind} (h : t.Refuses action errorKind path)
    (he : action.run t = .error e t') : t' = t := by
  obtain ⟨e', hrun, -⟩ := h
  rw [hrun] at he
  cases he
  rfl

/-- **A path that does not normalise is refused** before a walk along its names begins. -/
theorem refuses_of_not_normalize (h : ∀ names, Path.normalize path ≠ .ok names) (walk : List String → Edit α) :
    t.Refuses (MonadExcept.ofExcept (Path.normalize path) >>= walk) .invalidInput path := by
  cases hp : Path.normalize path with
  | ok names => exact absurd hp (h names)
  | error e =>
    have hrun : (MonadExcept.ofExcept (Except.error e) >>= walk : Edit α).run t = .error e t := by
      simp only [EStateM.run_bind, run_ofExcept_error]
    rcases Path.normalize_error hp with rfl | rfl
    · exact .of_run hrun rfl
    · exact .of_run hrun rfl

end

namespace WellFormed

variable (ht : t.WellFormed)

include ht

/-- **The depth to which a path leads decides what comes of making a node there.** -/
theorem outcome_make (hp : Path.normalize path = .ok names) (hne : names ≠ [])
    (hdeep : t.DeepestAt ⟨Path.join names, t.trail (some root) names⟩ m id n) (kind : NodeKind) :
    t.Outcome path (make path kind) names.length m n := by
  have hdescends := ht.descends_of_deepestAt hdeep
  have hpositive : 0 < names.length := List.length_pos_iff.2 hne
  have htaken : m = names.length → t.Refuses (make path kind) .alreadyExists path := by
    intro hm
    -- the last name is held by the directory before the deepest node
    obtain ⟨k, hk⟩ : ∃ k, names.length = k + 1 := ⟨names.length - 1, by omega⟩
    have hname : names[k]? = some names[k] := List.getElem?_eq_getElem (by omega)
    obtain ⟨dir, d, child, _, hdir, hd, -, hchild, -⟩ := hdescends.held k _ (by omega) hname
    have hdrop : names.drop (k + 1) = [] := List.drop_eq_nil_of_le (by omega)
    have hrun := run_make_from hp kind hdir hname
    rw [hdrop, run_makeUnder_taken ((child?_of_node? hd _).trans hchild)] at hrun
    exact .of_run hrun rfl
  have hblocked : m < names.length → ¬n.isDirectory → t.Refuses (make path kind) .notADirectory path := by
    intro hm hdir
    have hrun := run_make_from hp kind hdeep.met (List.getElem?_eq_getElem hm)
    rw [run_makeUnder_blocked hdeep.node hdir] at hrun
    exact .of_run hrun rfl
  have horphaned : m + 1 < names.length → n.isDirectory → t.Refuses (make path kind) .notFound path := by
    intro hm hdir
    have hname : names[m]? = some names[m] := List.getElem?_eq_getElem (by omega)
    have hrest : names.drop (m + 1) ≠ [] := by
      rw [Ne, List.drop_eq_nil_iff]
      omega
    have hrun := run_make_from hp kind hdeep.met hname
    rw [run_makeUnder_orphaned hdeep.node hdir (hdeep.child?_eq_none hname) path kind hrest] at hrun
    exact .of_run hrun rfl
  have hmade : m + 1 = names.length → n.isDirectory → ∃ new t', (make path kind).run t = .ok new t' := by
    intro hm hdir
    have hname : names[m]? = some names[m] := List.getElem?_eq_getElem (by omega)
    have hdrop : names.drop (m + 1) = [] := List.drop_eq_nil_of_le (by omega)
    have hrun := run_make_from hp kind hdeep.met hname
    rw [hdrop, run_makeUnder_free hdeep.node hdir (hdeep.child?_eq_none hname)] at hrun
    exact ⟨_, _, hrun⟩
  refine ⟨⟨?_, fun ⟨hm, hdir⟩ => hmade hm hdir⟩, htaken, fun hm htype => hblocked hm fun hdir => ?_, horphaned⟩
  · rintro ⟨new, t', hok⟩
    have hle : m ≤ names.length := hdescends.depth_le
    by_cases hdir : n.isDirectory
    · refine ⟨?_, hdir⟩
      by_contra hm
      rcases Nat.lt_or_eq_of_le hle with hlt | heq
      · exact (horphaned (by omega) hdir).not_ok new t' hok
      · exact (htaken heq).not_ok new t' hok
    · rcases Nat.lt_or_eq_of_le hle with hlt | heq
      · exact absurd hok ((hblocked hlt hdir).not_ok new t')
      · exact absurd hok ((htaken heq).not_ok new t')
  · obtain ⟨children, hk⟩ := Node.kind_of_directory hdir
    rw [hk] at htype
    exact htype.elim nofun nofun

/-- **Making a node of a kind that holds nothing.** -/
theorem makes_make (path : String) (hkind : kind.HoldsNothing) : t.Makes path (make path kind) kind where
  invalid := fun h => refuses_of_not_normalize h (makeUnder path kind root)
  atRoot := by
    intro hp
    have hrun : (make path kind).run t = .error .rootExists t := by
      simp only [make, EStateM.run_bind, hp, run_ofExcept_ok, makeUnder, run_throw]
    exact ⟨_, hrun, rfl, rfl⟩
  placed := by
    intro names hp hne
    have hc : t.chain path = .ok ⟨Path.join names, t.trail (some root) names⟩ := chain_eq_ok_iff.2 ⟨names, hp, rfl⟩
    obtain ⟨m, id, n, hdeep⟩ := ht.exists_deepestAt hc
    exact ⟨_, m, id, n, hc, hdeep, ht.outcome_make hp hne hdeep kind⟩
  made := by
    intro new t' hok
    rcases run_make path kind t with ⟨e, hrun⟩ | ⟨above, name, dir, d, hp, hlast, hd, hdir, hfree, hrun⟩
    · rw [hrun] at hok; cases hok
    · rw [hrun] at hok; cases hok
      have hnames := Path.isName_of_normalize hp
      have hname := hnames name (List.mem_append_right _ (List.mem_singleton_self name))
      have hadded := ht.add hd hdir hfree hname hkind
      refine ⟨rfl, ?_, above, name, dir, hp, ?_, gains_add hd hdir hfree kind⟩
      · rw [hadded.lookup_eq_some_iff, ht.names_add hlast hd]
        exact ⟨⟨_, t.node?_add_new dir name kind⟩, hp⟩
      · exact lookup_join (fun x hx => hnames x (List.mem_append_left _ hx)) hlast
  failed := by
    intro e t' hfail
    rcases run_make path kind t with ⟨e', hrun⟩ | ⟨_, _, _, _, -, -, -, -, -, hrun⟩
    · rw [hrun] at hfail; cases hfail; rfl
    · rw [hrun] at hfail; cases hfail

end WellFormed

end Tree

namespace Session

variable {s : Session}

/-- **Making a directory, a file or a link**, in every session that steps lead to, and at every path.

It succeeds exactly if all names of the path but the last lead to a directory, and the last leads nowhere. Then the
tree has one node more, with the next id, under the last name in that directory and without attributes; all other
nodes are as they were, but for the one entry more in the directory. Otherwise it fails, quotes the path as it was
given, and changes nothing: if the path does not normalise, if all its names lead to nodes, if a file or a link is in
the way, or if there is more than one name too many. The root is there already, and no path is quoted for it. -/
theorem creation_exact (hs : s.Reachable) (path : String) (policyId : Int8) (target : String) :
    ∀ x ∈ [(Tree.makeDirectory path, NodeKind.emptyDirectory), (Tree.makeFile path policyId, .file policyId),
      (Tree.makeLink path target, .link target)], s.tree.Makes path x.1 x.2 := by
  have ht := hs.wellFormed.tree
  intro x hx
  simp only [List.mem_cons, List.not_mem_nil, or_false] at hx
  rcases hx with rfl | rfl | rfl
  · exact ht.makes_make path NodeKind.holdsNothing_emptyDirectory
  · exact ht.makes_make path (NodeKind.holdsNothing_of_type nofun)
  · exact ht.makes_make path (NodeKind.holdsNothing_of_type nofun)

/-- A directory is made among others. A file cannot be made in the place of a directory, a link not below a file, and
a directory not in one that is not there. -/
theorem creation_exact_furnished :
    furnished.Reachable ∧
      (∃ t', (Tree.makeDirectory "/b/./bb").run furnished.tree = .ok 6 t' ∧
        t'.lookup "/b/./bb" = .ok (some 6) ∧ furnished.tree.Gains 1 "bb" .emptyDirectory t') ∧
      furnished.tree.Refuses (Tree.makeFile "/b/c/" 3) .alreadyExists "/b/c/" ∧
      furnished.tree.Refuses (Tree.makeLink "/b/a/x/y" "/") .notADirectory "/b/a/x/y" ∧
      furnished.tree.Refuses (Tree.makeDirectory "/b/x/y") .notFound "/b/x/y" := by
  have hexact := creation_exact reachable_furnished
  have hmade := hexact "/b/./bb" 0 "" _ List.mem_cons_self
  have htaken := hexact "/b/c/" 3 "" _ (List.mem_cons_of_mem _ List.mem_cons_self)
  have hblocked := hexact "/b/a/x/y" 0 "/" _ (List.mem_cons_of_mem _ (List.mem_cons_of_mem _ List.mem_cons_self))
  have horphaned := hexact "/b/x/y" 0 "" _ List.mem_cons_self
  refine ⟨reachable_furnished, ?_, ?_, ?_, ?_⟩
  · obtain ⟨t', hrun⟩ : ∃ t', (Tree.makeDirectory "/b/./bb").run furnished.tree = .ok 6 t' := ⟨_, rfl⟩
    obtain ⟨-, hlookup, above, name, dir, hp, hdir, hgains⟩ := hmade.made 6 t' hrun
    have hlist : above ++ [name] = ["b"] ++ ["bb"] := by
      have hnormal : Path.normalize "/b/./bb" = .ok ["b", "bb"] := rfl
      exact Except.ok.inj (hp.symm.trans hnormal)
    obtain ⟨rfl, hname⟩ := List.append_inj' hlist rfl
    cases hname
    have hfound : furnished.tree.lookup (Path.join ["b"]) = .ok (some 1) := rfl
    cases hfound.symm.trans hdir
    exact ⟨t', hrun, hlookup, hgains⟩
  · obtain ⟨c, m, id, n, hc, hdeep, houtcome⟩ := htaken.placed ["b", "c"] rfl (by decide)
    have hchain : furnished.tree.chain "/b/c/" = .ok ⟨"/b/c", [some 0, some 1, some 2]⟩ := rfl
    cases hchain.symm.trans hc
    obtain ⟨rfl, -, -⟩ := (Tree.deepestAt_of_split [some 0, some 1] rfl rfl (by decide)).unique hdeep
    exact houtcome.taken rfl
  · obtain ⟨c, m, id, n, hc, hdeep, houtcome⟩ := hblocked.placed ["b", "a", "x", "y"] rfl (by decide)
    have hchain : furnished.tree.chain "/b/a/x/y" =
        .ok ⟨"/b/a/x/y", [some 0, some 1, some 3, none, none]⟩ := rfl
    cases hchain.symm.trans hc
    obtain ⟨rfl, rfl, rfl⟩ :=
      (Tree.deepestAt_of_split [some 0, some 1] rfl rfl (by decide)).unique hdeep
    exact houtcome.blocked (by decide) (.inl rfl)
  · obtain ⟨c, m, id, n, hc, hdeep, houtcome⟩ := horphaned.placed ["b", "x", "y"] rfl (by decide)
    have hchain : furnished.tree.chain "/b/x/y" = .ok ⟨"/b/x/y", [some 0, some 1, none, none]⟩ := rfl
    cases hchain.symm.trans hc
    obtain ⟨rfl, rfl, rfl⟩ := (Tree.deepestAt_of_split [some 0] rfl rfl (by decide)).unique hdeep
    exact houtcome.orphaned (by decide) rfl

end Session

end PolicyTree
