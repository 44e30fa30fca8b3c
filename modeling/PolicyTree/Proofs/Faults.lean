import PolicyTree.Proofs.Making
import PolicyTree.Proofs.Namespace

/-!
# Faults inside the tree

Two errors would tell of a damaged tree: a walk is at an id that names no node, or a node is to be put under
something that is no directory. No walk that makes nodes comes to them. What a walk does on its way is seen by
letting a `Walker` do it: the walks are written for any walker, and one that keeps a record does what the plain one
does.

* `Walker.plain_carryOut`: **the walks of the plain walker are those of the tree.**
* `Tree.Follows`, `Walker.follows_carryOut`: **a record changes nothing** about what a walk comes to.
* `Tree.Accounts`: a record accounts for all that has happened to a tree.
* `Tree.Safely`: an action keeps tree and record sound, and ends in no fault; `safely_childOf`, `safely_insert` for
  one step, `safely_makeUnder`, `safely_makeDirectoriesUnder` for a walk.
* `Session.makes_without_fault`: **no fault happens, and no name is taken over**, whatever is to be made.
-/

namespace PolicyTree

open MonadExcept (ofExcept)

variable {σ α β : Type} {path name : String} {kind : NodeKind}

namespace Error

/-- **The errors that tell of a damaged tree.** -/
def IsFault (e : Error) : Prop :=
  e.report = ⟨.notADirectory, "parent is not a directory", .nothing⟩ ∨
    ∃ path, e.report = ⟨.notFound, "inode not found", .path path⟩

theorem not_isFault_of_kind {e : Error} (h : e.kind ≠ .notADirectory) (h' : e.kind ≠ .notFound) : ¬e.IsFault := by
  rintro (he | ⟨path, he⟩)
  · exact h (congrArg Report.kind he)
  · exact h' (congrArg Report.kind he)

theorem not_isFault_componentNotDirectory (path : String) : ¬(Error.componentNotDirectory path).IsFault := by
  rintro (he | ⟨other, he⟩)
  · cases congrArg Report.context he
  · cases congrArg Report.kind he

theorem not_isFault_parentMissing (path : String) : ¬(Error.parentMissing path).IsFault := by
  rintro (he | ⟨other, he⟩)
  · cases congrArg Report.kind he
  · have htext : "parent directory not found" = "inode not found" := congrArg Report.text he
    exact absurd htext (by decide)

theorem not_isFault_of_normalize {e : Error} (h : Path.normalize path = .error e) : ¬e.IsFault := by
  rcases Path.normalize_error h with rfl | rfl
  · exact not_isFault_of_kind nofun nofun
  · exact not_isFault_of_kind nofun nofun

end Error

namespace Tree

/-! ## Walkers -/

/-- What a walk lets others do: ask a directory for a name, look whether a node is a directory, add a node. -/
structure Walker (σ : Type) where
  childOf (dir : NodeId) (name path : String) : EStateM Error σ (Option NodeId)
  isDirectory (id : NodeId) : EStateM Error σ Bool
  insert (dir : NodeId) (name : String) (kind : NodeKind) : EStateM Error σ NodeId

/-- The calls that make nodes. -/
inductive Making where
  | directory (path : String)
  | directories (path : String)
  | file (path : String) (policyId : Int8)
  | link (path target : String)

/-- What a call does to the tree. -/
def Making.edit : Making → Edit NodeId
  | .directory path => makeDirectory path
  | .directories path => makeDirectories path
  | .file path policyId => makeFile path policyId
  | .link path target => makeLink path target

namespace Walker

/-- The walk to a new node. -/
def makeUnder (walker : Walker σ) (path : String) (kind : NodeKind) : NodeId → List String → EStateM Error σ NodeId
  | _, [] => throw .rootExists
  | dir, [name] => do
    match ← walker.childOf dir name path with
    | some _ => throw (.pathExists path)
    | none => walker.insert dir name kind
  | dir, name :: rest => do
    match ← walker.childOf dir name path with
    | some child => walker.makeUnder path kind child rest
    | none => throw (.parentMissing path)

/-- The walk that makes what is missing. -/
def makeDirectoriesUnder (walker : Walker σ) (path : String) : NodeId → List String → EStateM Error σ NodeId
  | dir, [] => return dir
  | dir, name :: rest => do
    match ← walker.childOf dir name path with
    | some child =>
      if ← walker.isDirectory child then walker.makeDirectoriesUnder path child rest
      else throw (.componentNotDirectory path)
    | none => walker.makeDirectoriesUnder path (← walker.insert dir name .emptyDirectory) rest

/-- A new node at a path. -/
def make (walker : Walker σ) (path : String) (kind : NodeKind) : EStateM Error σ NodeId := do
  walker.makeUnder path kind root (← ofExcept (Path.normalize path))

/-- **A call, carried out by a walker.** -/
def carryOut (walker : Walker σ) : Making → EStateM Error σ NodeId
  | .directory path => walker.make path .emptyDirectory
  | .directories path => do walker.makeDirectoriesUnder path root (← ofExcept (Path.normalize path))
  | .file path policyId => walker.make path (.file policyId)
  | .link path target => walker.make path (.link target)

/-- The walker that uses the tree and does nothing else. -/
def plain : Walker Tree where
  childOf dir name path := do ofExcept ((← get).childOf dir name path)
  isDirectory id := return (← get).isDirectory id
  insert := Tree.insert

theorem plain_makeUnder (path : String) (kind : NodeKind) : ∀ (names : List String) (dir : NodeId),
    plain.makeUnder path kind dir names = Tree.makeUnder path kind dir names := by
  intro names
  induction names with
  | nil => intro dir; rfl
  | cons name rest ih =>
    intro dir
    cases rest with
    | nil => rfl
    | cons next rest =>
      -- the plain walker asks the tree as it is, which is what the walk itself does
      simp only [makeUnder, Tree.makeUnder, ih]
      rfl

theorem plain_makeDirectoriesUnder (path : String) : ∀ (names : List String) (dir : NodeId),
    plain.makeDirectoriesUnder path dir names = Tree.makeDirectoriesUnder path dir names := by
  intro names
  induction names with
  | nil => intro dir; rfl
  | cons name rest ih =>
    intro dir
    simp only [makeDirectoriesUnder, Tree.makeDirectoriesUnder, ih]
    rfl

/-- **The walks of the plain walker are those of the tree.** -/
theorem plain_carryOut (call : Making) : plain.carryOut call = call.edit := by
  cases call <;>
    simp only [carryOut, make, Making.edit, makeDirectory, makeDirectories, makeFile, makeLink, Tree.make,
      plain_makeUnder, plain_makeDirectoriesUnder]

end Walker

/-! ## Records -/

/-- What a walk uses a tree for: it asks a directory for a name, or adds a node to one. -/
inductive Use where
  | ask (t : Tree) (dir : NodeId) (name : String)
  | insert (t : Tree) (dir : NodeId) (name : String) (kind : NodeKind)
  deriving DecidableEq

/-- A tree, and what it has been used for. -/
structure Watch where
  tree : Tree
  uses : List Use

/-- An action on a watched tree. -/
abbrev Watched := EStateM Error Watch

namespace Watch

/-- Writes down a use of the tree as it is now. -/
def note (use : Tree → Use) : Watched Unit :=
  modify fun w => { w with uses := w.uses ++ [use w.tree] }

/-- Acts on the tree. -/
def act (action : Edit α) : Watched α := fun w =>
  match action.run w.tree with
  | .ok a tree => .ok a { w with tree }
  | .error e tree => .error e { w with tree }

theorem run_note (use : Tree → Use) (w : Watch) :
    (note use).run w = .ok () { w with uses := w.uses ++ [use w.tree] } := rfl

theorem run_act (action : Edit α) (w : Watch) : (act action).run w = match action.run w.tree with
    | .ok a tree => .ok a { w with tree }
    | .error e tree => .error e { w with tree } := rfl

/-- What remains if the record is forgotten. -/
def forget : EStateM.Result Error Watch α → EStateM.Result Error Tree α
  | .ok a w => .ok a w.tree
  | .error e w => .error e w.tree

end Watch

/-- **The walker that keeps a record.** It writes down what it is about to ask or to add, and goes on as the plain
one. -/
def Walker.watched : Walker Watch where
  childOf dir name path := do Watch.note (.ask · dir name); Watch.act (plain.childOf dir name path)
  isDirectory id := Watch.act (plain.isDirectory id)
  insert dir name kind := do Watch.note (.insert · dir name kind); Watch.act (plain.insert dir name kind)

/-- What a call uses a tree for, in order. -/
def Making.uses (call : Making) (t : Tree) : List Use :=
  (stateAfter (Walker.watched.carryOut call) ⟨t, []⟩).uses

/-- An action on a watched tree comes to the same as one on the tree alone. -/
def Follows (watched : Watched α) (action : Edit α) : Prop :=
  ∀ w, Watch.forget (watched.run w) = action.run w.tree

namespace Follows

theorem act (action : Edit α) : Follows (Watch.act action) action := by
  intro w
  rw [Watch.run_act]
  cases action.run w.tree <;> rfl

theorem noted {watched : Watched α} {action : Edit α} (h : Follows watched action) (use : Tree → Use) :
    Follows (do Watch.note use; watched) action :=
  fun w => h { w with uses := w.uses ++ [use w.tree] }

theorem pure (a : α) : Follows (Pure.pure a) (Pure.pure a) := fun _ => rfl

theorem throw (e : Error) : Follows (MonadExcept.throw e : Watched α) (MonadExcept.throw e) := fun _ => rfl

theorem ofExcept (x : Except Error α) : Follows (MonadExcept.ofExcept x) (MonadExcept.ofExcept x) := by
  intro w
  cases x <;> rfl

theorem bind {watched : Watched α} {action : Edit α} {next : α → Watched β} {next' : α → Edit β}
    (h : Follows watched action) (hnext : ∀ a, Follows (next a) (next' a)) :
    Follows (watched >>= next) (action >>= next') := by
  intro w
  have hw := h w
  simp only [EStateM.run_bind, ← hw]
  cases watched.run w with
  | ok a w' => exact hnext a w'
  | error e w' => rfl

/-- What happens to the tree does not depend on the record either. -/
theorem stateAfter {watched : Watched α} {action : Edit α} (h : Follows watched action) (w : Watch) :
    (stateAfter watched w).tree = PolicyTree.stateAfter action w.tree := by
  unfold PolicyTree.stateAfter
  rw [← h w]
  cases watched.run w <;> rfl

end Follows

namespace Walker

theorem follows_childOf (dir : NodeId) (name path : String) :
    Follows (watched.childOf dir name path) (plain.childOf dir name path) := (Follows.act _).noted _

theorem follows_insert (dir : NodeId) (name : String) (kind : NodeKind) :
    Follows (watched.insert dir name kind) (plain.insert dir name kind) := (Follows.act _).noted _

theorem follows_makeUnder (path : String) (kind : NodeKind) : ∀ (names : List String) (dir : NodeId),
    Follows (watched.makeUnder path kind dir names) (plain.makeUnder path kind dir names) := by
  intro names
  induction names with
  | nil => intro dir; exact .throw _
  | cons name rest ih =>
    intro dir
    cases rest with
    | nil =>
      refine (follows_childOf dir name path).bind fun child => ?_
      cases child with
      | some child => exact .throw _
      | none => exact follows_insert dir name kind
    | cons next rest =>
      refine (follows_childOf dir name path).bind fun child => ?_
      cases child with
      | some child => exact ih child
      | none => exact .throw _

theorem follows_makeDirectoriesUnder (path : String) : ∀ (names : List String) (dir : NodeId),
    Follows (watched.makeDirectoriesUnder path dir names) (plain.makeDirectoriesUnder path dir names) := by
  intro names
  induction names with
  | nil => intro dir; exact .pure dir
  | cons name rest ih =>
    intro dir
    refine (follows_childOf dir name path).bind fun child => ?_
    cases child with
    | none => exact (follows_insert dir name .emptyDirectory).bind ih
    | some child =>
      refine (Follows.act (plain.isDirectory child)).bind fun isDirectory => ?_
      cases isDirectory with
      | true => exact ih child
      | false => exact .throw _

/-- **A record changes nothing** about what a walk comes to. -/
theorem follows_carryOut (call : Making) : Follows (watched.carryOut call) call.edit := by
  have hmake : ∀ path kind, Follows (watched.make path kind) (plain.make path kind) := fun path kind =>
    (Follows.ofExcept (Path.normalize path)).bind fun names => follows_makeUnder path kind names root
  rw [← plain_carryOut]
  cases call with
  | directory path => exact hmake path _
  | directories path =>
    exact (Follows.ofExcept (Path.normalize path)).bind fun names => follows_makeDirectoriesUnder path names root
  | file path policyId => exact hmake path _
  | link path target => exact hmake path _

end Walker

/-! ## Sound uses -/

/-- **A use that nothing can go wrong with**: what is asked is a node, and what is added to is a directory that
does not hold the name yet. -/
def Use.Sound : Use → Prop
  | .ask t dir _ => ∃ d, t.node? dir = some d
  | .insert t dir name _ => ∃ d, t.node? dir = some d ∧ d.isDirectory ∧ d.child? name = none

/-- **A record accounts for all that has happened to a tree**: each use is of the tree as it was then, and the tree
has changed by the recorded additions alone. -/
inductive Accounts (start : Tree) : List Use → Tree → Prop
  | nil : Accounts start [] start
  | ask {uses : List Use} {t : Tree} {dir : NodeId} {name : String} (h : Accounts start uses t) :
      Accounts start (uses ++ [.ask t dir name]) t
  | insert {uses : List Use} {t : Tree} {dir : NodeId} {name : String} {kind : NodeKind}
      (h : Accounts start uses t) : Accounts start (uses ++ [.insert t dir name kind]) (t.add dir name kind)

/-- A well-formed tree, and a record that accounts for it with nothing but sound uses. -/
structure Watch.Sound (start : Tree) (w : Watch) : Prop where
  tree : w.tree.WellFormed
  uses : ∀ use ∈ w.uses, use.Sound
  accounts : start.Accounts w.uses w.tree

/-- **An action on a sound watch leaves a sound one**, whether it succeeds or not. An answer is as it is meant to
be, and an error is no fault. -/
structure Safely (start : Tree) (action : Watched α) (w : Watch) (post : α → Watch → Prop) : Prop where
  answers : ∀ {a w'}, action.run w = .ok a w' → w'.Sound start ∧ post a w'
  fails : ∀ {e w'}, action.run w = .error e w' → w'.Sound start ∧ ¬e.IsFault

variable {start : Tree} {w : Watch} {dir : NodeId} {d : Node} {names : List String} {e : Error}
  {post : α → Watch → Prop}

theorem Watch.Sound.uses_concat (hw : w.Sound start) {use : Use} (huse : use.Sound) :
    ∀ use' ∈ w.uses ++ [use], use'.Sound :=
  List.forall_mem_append.2 ⟨hw.uses, List.forall_mem_singleton.2 huse⟩

namespace Safely

variable {action : Watched α} {next : α → Watched β} {post' : β → Watch → Prop}

theorem of_ok {a : α} {w' : Watch} (h : action.run w = .ok a w') (hw : w'.Sound start) (hpost : post a w') :
    Safely start action w post where
  answers hok := by
    rw [h] at hok; cases hok
    exact ⟨hw, hpost⟩
  fails herror := by rw [h] at herror; cases herror

theorem of_error {w' : Watch} (h : action.run w = .error e w') (hw : w'.Sound start) (he : ¬e.IsFault) :
    Safely start action w post where
  answers hok := by rw [h] at hok; cases hok
  fails herror := by
    rw [h] at herror; cases herror
    exact ⟨hw, he⟩

theorem imp (h : Safely start action w post) : Safely start action w fun _ _ => True :=
  ⟨fun hok => ⟨(h.answers hok).1, trivial⟩, h.fails⟩

theorem bind (h : Safely start action w post)
    (hnext : ∀ a w', w'.Sound start → post a w' → Safely start (next a) w' post') :
    Safely start (action >>= next) w post' := by
  cases hrun : action.run w with
  | ok a w' =>
    have hsound := h.answers hrun
    have hafter := hnext a w' hsound.1 hsound.2
    have hbind : (action >>= next).run w = (next a).run w' := by rw [EStateM.run_bind, hrun]
    exact ⟨fun hok => hafter.answers (hbind ▸ hok), fun herror => hafter.fails (hbind ▸ herror)⟩
  | error e w' =>
    have hsound := h.fails hrun
    exact .of_error (by rw [EStateM.run_bind, hrun]) hsound.1 hsound.2

/-- A safe action leaves a sound watch, whatever it comes to. -/
theorem stateAfter (h : Safely start action w post) : (stateAfter action w).Sound start := by
  unfold PolicyTree.stateAfter
  cases hrun : action.run w with
  | ok a w' => exact (h.answers hrun).1
  | error e w' => exact (h.fails hrun).1

theorem throw (hw : w.Sound start) (he : ¬e.IsFault) : Safely start (MonadExcept.throw e : Watched α) w post :=
  .of_error rfl hw he

end Safely

/-! ## One step -/

namespace Walker

theorem run_childOf_watched (w : Watch) (dir : NodeId) (name path : String) :
    (watched.childOf dir name path).run w = match w.tree.childOf dir name path with
      | .ok child => .ok child { w with uses := w.uses ++ [.ask w.tree dir name] }
      | .error e => .error e { w with uses := w.uses ++ [.ask w.tree dir name] } := by
  simp only [watched, plain, EStateM.run_bind, Watch.run_note, Watch.run_act, EStateM.run_get]
  cases w.tree.childOf dir name path <;> rfl

/-- **A node can be asked.** If there is an answer then the node is a directory, and what it holds is a node. -/
theorem safely_childOf (hw : w.Sound start) (hd : w.tree.node? dir = some d) (name path : String) :
    Safely start (watched.childOf dir name path) w fun answer w' =>
      w'.tree.node? dir = some d ∧ d.isDirectory ∧ d.child? name = answer ∧
        ∀ child, answer = some child → ∃ n, w'.tree.node? child = some n := by
  have hsound : Watch.Sound start { w with uses := w.uses ++ [.ask w.tree dir name] } :=
    ⟨hw.tree, hw.uses_concat ⟨d, hd⟩, hw.accounts.ask⟩
  have hrun := run_childOf_watched w dir name path
  by_cases hdir : d.isDirectory
  · rw [childOf_of_directory hd hdir] at hrun
    refine .of_ok hrun hsound ⟨hd, hdir, rfl, fun child hchild => ?_⟩
    obtain ⟨n, hn, -⟩ := hw.tree.child_iff.1 ((child?_of_node? hd name).trans hchild)
    exact ⟨n, hn⟩
  · rw [childOf_of_not_directory hd hdir] at hrun
    exact .of_error hrun hsound (Error.not_isFault_componentNotDirectory path)

theorem safely_isDirectory (hw : w.Sound start) (id : NodeId) :
    Safely start (watched.isDirectory id) w fun _ w' => w' = w := .of_ok rfl hw rfl

/-- **A node can be added to a directory under a free name.** It is there afterwards. -/
theorem safely_insert (hw : w.Sound start) (hd : w.tree.node? dir = some d) (hdir : d.isDirectory)
    (hfree : d.child? name = none) (hname : Path.IsName name) (hkind : kind.HoldsNothing) :
    Safely start (watched.insert dir name kind) w fun id w' => ∃ n, w'.tree.node? id = some n := by
  have hsound : Watch.Sound start ⟨w.tree.add dir name kind, w.uses ++ [.insert w.tree dir name kind]⟩ :=
    ⟨hw.tree.add hd hdir hfree hname hkind, hw.uses_concat ⟨d, hd, hdir, hfree⟩, hw.accounts.insert⟩
  have hrun : (watched.insert dir name kind).run w = .ok w.tree.size
      ⟨w.tree.add dir name kind, w.uses ++ [.insert w.tree dir name kind]⟩ := by
    simp only [watched, plain, EStateM.run_bind, Watch.run_note, Watch.run_act, run_insert hd hdir]
  exact .of_ok hrun hsound ⟨_, node?_add_new w.tree dir name kind⟩

/-! ## A whole walk -/

/-- **The walk to a new node is safe** from any node on. -/
theorem safely_makeUnder (path : String) (hkind : kind.HoldsNothing) : ∀ (names : List String) {dir : NodeId}
    {d : Node} {w : Watch}, w.Sound start → w.tree.node? dir = some d → (∀ name ∈ names, Path.IsName name) →
      Safely start (watched.makeUnder path kind dir names) w fun _ _ => True := by
  intro names
  induction names with
  | nil =>
    intro dir d w hw hd hnames
    exact .throw hw (Error.not_isFault_of_kind nofun nofun)
  | cons name rest ih =>
    intro dir d w hw hd hnames
    have hname : Path.IsName name := hnames name List.mem_cons_self
    have hasked := safely_childOf hw hd name path
    cases rest with
    | nil =>
      refine hasked.bind ?_
      rintro answer w' hw' ⟨hd', hdir, hanswer, -⟩
      cases answer with
      | some child => exact .throw hw' (Error.not_isFault_of_kind nofun nofun)
      | none => exact (safely_insert hw' hd' hdir hanswer hname hkind).imp
    | cons next rest =>
      refine hasked.bind ?_
      rintro answer w' hw' ⟨-, -, -, hnode⟩
      cases answer with
      | some child =>
        obtain ⟨n, hn⟩ := hnode child rfl
        exact ih hw' hn fun x hx => hnames x (List.mem_cons_of_mem _ hx)
      | none => exact .throw hw' (Error.not_isFault_parentMissing path)

/-- **The walk that makes what is missing is safe** from any node on. -/
theorem safely_makeDirectoriesUnder (path : String) : ∀ (names : List String) {dir : NodeId} {d : Node} {w : Watch},
    w.Sound start → w.tree.node? dir = some d → (∀ name ∈ names, Path.IsName name) →
      Safely start (watched.makeDirectoriesUnder path dir names) w fun _ _ => True := by
  intro names
  induction names with
  | nil =>
    intro dir d w hw hd hnames
    exact .of_ok rfl hw trivial
  | cons name rest ih =>
    intro dir d w hw hd hnames
    have hname : Path.IsName name := hnames name List.mem_cons_self
    have hrest : ∀ x ∈ rest, Path.IsName x := fun x hx => hnames x (List.mem_cons_of_mem _ hx)
    refine (safely_childOf hw hd name path).bind ?_
    rintro answer w' hw' ⟨hd', hdir, hanswer, hnode⟩
    cases answer with
    | none =>
      -- what has been added is the next node to ask, in a tree that is well formed again
      refine (safely_insert hw' hd' hdir hanswer hname NodeKind.holdsNothing_emptyDirectory).bind ?_
      rintro id w'' hw'' ⟨n, hn⟩
      exact ih hw'' hn hrest
    | some child =>
      obtain ⟨n, hn⟩ := hnode child rfl
      refine (safely_isDirectory hw' child).bind ?_
      rintro isDirectory w'' hw'' rfl
      cases isDirectory with
      | true => exact ih hw'' hn hrest
      | false => exact .throw hw'' (Error.not_isFault_componentNotDirectory path)

/-- **Every call that makes nodes is safe.** -/
theorem safely_carryOut (hw : w.Sound start) (call : Making) :
    Safely start (watched.carryOut call) w fun _ _ => True := by
  obtain ⟨r, hr, -⟩ := hw.tree.rooted
  -- a walk begins at the root, with names that can stand in a path
  have hbegin : ∀ (path : String) (walk : List String → Watched NodeId),
      (∀ names, (∀ name ∈ names, Path.IsName name) → Safely start (walk names) w fun _ _ => True) →
        Safely start (do walk (← ofExcept (Path.normalize path))) w fun _ _ => True := by
    intro path walk hwalk
    cases hp : Path.normalize path with
    | error e => exact .of_error rfl hw (Error.not_isFault_of_normalize hp)
    | ok names => exact hwalk names (Path.isName_of_normalize hp)
  have hmake : ∀ path {kind : NodeKind}, kind.HoldsNothing →
      Safely start (watched.make path kind) w fun _ _ => True := fun path _ hkind =>
    hbegin path _ fun names => safely_makeUnder path hkind names hw hr
  cases call with
  | directory path => exact hmake path NodeKind.holdsNothing_emptyDirectory
  | directories path => exact hbegin path _ fun names => safely_makeDirectoriesUnder path names hw hr
  | file path policyId => exact hmake path (NodeKind.holdsNothing_of_type nofun)
  | link path target => exact hmake path (NodeKind.holdsNothing_of_type nofun)

end Walker

end Tree

namespace Session

/-- **No fault happens while nodes are made**, in every session that steps lead to, by any call and at every path.
The watched walk is the walk of the call, and comes to the same. Whatever it asks for a name is a node; whatever it
adds to is a directory that does not hold the name yet, so that the addition succeeds, takes no name over, and
leaves the new node under the id that the directory holds. The record accounts for all that the call does to the
tree. An error is never one of a damaged tree. -/
theorem makes_without_fault {s : Session} (hs : s.Reachable) (call : Tree.Making) :
    (Tree.Walker.plain.carryOut call = call.edit ∧
      Tree.Watch.forget ((Tree.Walker.watched.carryOut call).run ⟨s.tree, []⟩) = call.edit.run s.tree) ∧
    (∀ t dir name, .ask t dir name ∈ call.uses s.tree → ∃ d, t.node? dir = some d) ∧
    (∀ t dir name kind, .insert t dir name kind ∈ call.uses s.tree →
      (∃ d, t.node? dir = some d ∧ d.isDirectory ∧ d.child? name = none) ∧
        (Tree.insert dir name kind).run t = .ok t.size (t.add dir name kind) ∧
        t.Gains dir name kind (t.add dir name kind)) ∧
    s.tree.Accounts (call.uses s.tree) (stateAfter call.edit s.tree) ∧
    ∀ e t', call.edit.run s.tree = .error e t' → ¬e.IsFault := by
  have hsound : Tree.Watch.Sound s.tree ⟨s.tree, []⟩ := ⟨hs.wellFormed.tree, nofun, .nil⟩
  have hsafe := Tree.Walker.safely_carryOut hsound call
  have hfollows := Tree.Walker.follows_carryOut call
  have hsame := hfollows ⟨s.tree, []⟩
  have huses := hsafe.stateAfter.uses
  refine ⟨⟨Tree.Walker.plain_carryOut call, hsame⟩, ?_, ?_, ?_, ?_⟩
  · intro t dir name huse
    exact huses _ huse
  · intro t dir name kind huse
    obtain ⟨d, hd, hdir, hfree⟩ : ∃ d, t.node? dir = some d ∧ d.isDirectory ∧ d.child? name = none := huses _ huse
    exact ⟨⟨d, hd, hdir, hfree⟩, Tree.run_insert hd hdir name kind, Tree.gains_add hd hdir hfree kind⟩
  · have haccounts := hsafe.stateAfter.accounts
    rwa [hfollows.stateAfter] at haccounts
  · intro e t' hfail
    rw [hfail] at hsame
    cases hrun : (Tree.Walker.watched.carryOut call).run ⟨s.tree, []⟩ with
    | ok id w => rw [hrun] at hsame; cases hsame
    | error e' w =>
      rw [hrun] at hsame
      cases hsame
      exact (hsafe.fails hrun).2

/-- Two directories are made in an empty tree, one inside the other: the one that has just been made is asked for the
second name, and takes it in. Below a file nothing is made, and the error says so. -/
theorem makes_without_fault_furnished :
    let t := initial.tree.add 0 "x" .emptyDirectory
    initial.Reachable ∧
      (Tree.Making.directories "/x/./y").uses initial.tree =
        [.ask initial.tree 0 "x", .insert initial.tree 0 "x" .emptyDirectory, .ask t 1 "y",
          .insert t 1 "y" .emptyDirectory] ∧
      (∃ d, t.node? 1 = some d) ∧
      t.Gains 1 "y" .emptyDirectory (t.add 1 "y" .emptyDirectory) ∧
      furnished.Reachable ∧
      (Tree.Making.file "/b/a/x" 3).edit.run furnished.tree =
        .error (.componentNotDirectory "/b/a/x") furnished.tree ∧
      ¬(Error.componentNotDirectory "/b/a/x").IsFault := by
  intro t
  have huses : (Tree.Making.directories "/x/./y").uses initial.tree =
      [.ask initial.tree 0 "x", .insert initial.tree 0 "x" .emptyDirectory, .ask t 1 "y",
        .insert t 1 "y" .emptyDirectory] := by decide +kernel
  have hfail : (Tree.Making.file "/b/a/x" 3).edit.run furnished.tree =
      .error (.componentNotDirectory "/b/a/x") furnished.tree := rfl
  obtain ⟨-, hasks, hinserts, -, -⟩ := makes_without_fault reachable_initial (.directories "/x/./y")
  obtain ⟨-, -, -, -, hfault⟩ := makes_without_fault reachable_furnished (.file "/b/a/x" 3)
  rw [huses] at hasks hinserts
  exact ⟨reachable_initial, huses, hasks t 1 "y" (by simp), (hinserts t 1 "y" _ (by simp)).2.2, reachable_furnished,
    hfail, hfault _ _ hfail⟩

-- in a tree that no steps lead to, a directory holds a name for an id that names no node
example : (Tree.makeDirectory "/a/b").run ⟨[⟨0, "", none, .directory ⟨[("a", 7)]⟩, {}⟩]⟩ =
    .error (.danglingNode "/a/b") ⟨[⟨0, "", none, .directory ⟨[("a", 7)]⟩, {}⟩]⟩ := rfl

end Session

end PolicyTree
