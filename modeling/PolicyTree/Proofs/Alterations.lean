import Mathlib.Logic.Relation
import PolicyTree.Assign
import PolicyTree.Proofs.Actions
import PolicyTree.Proofs.Paths
import PolicyTree.Proofs.Shape

/-!
# What an action does to the tree

* `Tree.Alters`: an elementary change: one attribute of one node, or one more node.
* `Tree.Altered`: any number of elementary changes.
* `Tree.Widens`: one more empty directory, the elementary change that directories are made of.
* `run_putAttribute`, `run_assign`, …: each action in closed form, and `altered_make`, …: it comes to
  elementary changes, which touch no attribute but its own.
-/

namespace PolicyTree

open MonadExcept (ofExcept)
open Relation (ReflTransGen)

/-- A kind that comes without children. -/
def NodeKind.HoldsNothing (kind : NodeKind) : Prop := ∀ c, kind = .directory c → c = {}

theorem NodeKind.holdsNothing_emptyDirectory : emptyDirectory.HoldsNothing :=
  fun _ h => (NodeKind.directory.inj h).symm

/-- Only a directory holds anything. -/
theorem NodeKind.holdsNothing_of_type {kind : NodeKind} (h : kind.type ≠ .directory) : kind.HoldsNothing :=
  fun _ hc => absurd (by rw [hc]; rfl) h

/-- A policy that is written is what is found. -/
theorem AttributeSet.find?_put_policy (s : AttributeSet) (name : String) :
    (s.put (PolicyName.toAttribute name)).find? PolicyName.key = some (PolicyName.toAttribute name) := by
  rw [AttributeSet.find?_put]; exact if_pos rfl

namespace Tree

variable {t t' : Tree} {id dir : NodeId} {n : Node} {c : Chain} {name path : String}
  {touchable : String → Prop}

/-- **An elementary change of the tree.** Only attributes of touchable names change. -/
inductive Alters (touchable : String → Prop) (t : Tree) : Tree → Prop
  | put {id : NodeId} {n : Node} {a : Attribute} (hn : t.node? id = some n) (ha : touchable a.name) :
      Alters touchable t (t.setAttributes id (n.attributes.put a))
  | erase {id : NodeId} {n : Node} {name : String} (hn : t.node? id = some n) (ha : touchable name) :
      Alters touchable t (t.setAttributes id (n.attributes.erase name))
  | add {dir : NodeId} {d : Node} {name : String} {kind : NodeKind} (hd : t.node? dir = some d)
      (hdir : d.isDirectory) (hfree : d.child? name = none) (hname : Path.IsName name)
      (hkind : kind.HoldsNothing) : Alters touchable t (t.add dir name kind)

/-- One more empty directory, under a free name. -/
inductive Widens (t : Tree) : Tree → Prop
  | add {dir : NodeId} {d : Node} {name : String} (hd : t.node? dir = some d) (hdir : d.isDirectory)
      (hfree : d.child? name = none) (hname : Path.IsName name) :
      Widens t (t.add dir name .emptyDirectory)

theorem Widens.alters (h : t.Widens t') : t.Alters touchable t' := by
  cases h with
  | add hd hdir hfree hname => exact .add hd hdir hfree hname NodeKind.holdsNothing_emptyDirectory

/-- Any number of elementary changes. -/
abbrev Altered (touchable : String → Prop) : Tree → Tree → Prop := ReflTransGen (Alters touchable)

/-! ## Attributes -/

theorem run_getNode (id : NodeId) (t : Tree) : (getNode id).run t = match t.node? id with
    | some n => .ok n t
    | none => .error .nodeMissing t := by
  simp only [getNode, EStateM.run_bind, EStateM.run_get]
  cases t.node? id <;> rfl

theorem run_putAttribute (id : NodeId) (a : Attribute) (flags : SetFlags) (t : Tree) :
    (putAttribute id a flags).run t = match t.node? id with
      | none => .error .nodeMissing t
      | some n => match n.attributes.set a flags with
        | .error e => .error e t
        | .ok s => .ok () (t.setAttributes id s) := by
  simp only [putAttribute, EStateM.run_bind, run_getNode]
  cases t.node? id with
  | none => rfl
  | some n =>
    simp only
    cases n.attributes.set a flags <;> rfl

theorem run_removeAttribute (id : NodeId) (name : String) (t : Tree) :
    (removeAttribute id name).run t = match t.node? id with
      | none => .error .nodeMissing t
      | some n => .ok (n.attributes.find? name) (t.setAttributes id (n.attributes.erase name)) := by
  simp only [removeAttribute, EStateM.run_bind, run_getNode]
  cases h : t.node? id with
  | none => rfl
  | some n =>
    simp only [EStateM.run_modify, EStateM.run_pure]
    rw [update_eq_setAttributes h rfl]

theorem altered_putAttribute (id : NodeId) (a : Attribute) (flags : SetFlags) (ha : touchable a.name)
    (t : Tree) : t.Altered touchable (stateAfter (putAttribute id a flags) t) := by
  unfold stateAfter
  rw [run_putAttribute]
  cases hn : t.node? id with
  | none => exact .refl
  | some n =>
    rcases n.attributes.set_cases a flags with h | ⟨e, h⟩
    · simp only [h]; exact .single (.put hn ha)
    · simp only [h]; exact .refl

theorem altered_removeAttribute (id : NodeId) (ha : touchable name) (t : Tree) :
    t.Altered touchable (stateAfter (removeAttribute id name) t) := by
  unfold stateAfter
  rw [run_removeAttribute]
  cases hn : t.node? id with
  | none => exact .refl
  | some n => exact .single (.erase hn ha)

/-! ## Assigning and unassigning -/

/-- A chain leads to a node. -/
def Targets (t : Tree) (c : Chain) (id : NodeId) (n : Node) : Prop :=
  c.last? = some id ∧ t.node? id = some n

theorem targets_or_missing (t : Tree) (c : Chain) :
    (∃ id n, t.Targets c id n) ∨ c.last?.bind t.node? = none := by
  unfold Targets
  cases c.last? with
  | none => exact Or.inr rfl
  | some id =>
    cases h : t.node? id with
    | none => exact Or.inr h
    | some n => exact Or.inl ⟨id, n, rfl, h⟩

theorem targetDirectory_of_targets (h : t.Targets c id n) (wrong : Error) :
    t.targetDirectory c wrong = if n.isDirectory then .ok id else .error wrong := by
  unfold targetDirectory
  simp only [h.1, h.2]

theorem targetDirectory_of_missing (h : c.last?.bind t.node? = none) (wrong : Error) :
    t.targetDirectory c wrong = .error (.targetMissing c.path) := by
  unfold targetDirectory
  cases hl : c.last? with
  | none => rfl
  | some id => rw [hl, Option.bind_some] at h; simp only [h]

theorem ownPolicy?_of_directory (hn : t.node? id = some n) (hd : n.isDirectory) :
    t.ownPolicy? id = n.attributes.find? PolicyName.key := by
  have hl : n.kind.type ≠ .link := by
    intro h; unfold Node.isDirectory at hd; rw [h] at hd; cases hd
  unfold ownPolicy?
  simp only [hn, if_neg hl]

/-- **Assigning writes the encoded name to the target**, in place of what is there. -/
theorem run_assign (h : t.Targets c id n) (hd : n.isDirectory) (p : Policy) :
    (assign c p).run t =
      .ok ⟨p, [PolicyName.toAttribute p.name],
          if (n.attributes.find? PolicyName.key).isSome then .replace else .create⟩
        (t.setAttributes id (n.attributes.put (PolicyName.toAttribute p.name))) := by
  -- the flags fit what is there, so the write cannot be turned down
  have hset := AttributeSet.set_of_check (s := n.attributes) (a := PolicyName.toAttribute p.name)
    (AttributeSet.check_replace_or_create _)
  simp only [assign, EStateM.run_bind, EStateM.run_get, targetDirectory_of_targets h, hd, if_true,
    run_ofExcept_ok, ownPolicy?_of_directory h.2 hd, run_putAttribute, h.2]
  rw [show (PolicyName.toAttribute p.name).name = PolicyName.key from rfl] at hset
  simp only [hset, EStateM.run_pure]

theorem run_assign_of_error {e : Error} (h : t.targetDirectory c (.assignToNonDirectory c.path) = .error e)
    (p : Policy) : (assign c p).run t = .error e t := by
  simp only [assign, EStateM.run_bind, EStateM.run_get, h, run_ofExcept_error]

/-- **Unassigning takes the target's own policy out**, if there is one. -/
theorem run_unassign (h : t.Targets c id n) (hd : n.isDirectory) :
    (unassign c).run t = .ok ((n.attributes.find? PolicyName.key).map ([·]))
      (t.setAttributes id (n.attributes.erase PolicyName.key)) := by
  simp only [unassign, EStateM.run_bind, EStateM.run_get, targetDirectory_of_targets h, hd, if_true,
    run_ofExcept_ok, ownPolicy?_of_directory h.2 hd]
  cases ha : n.attributes.find? PolicyName.key with
  | none => rw [AttributeSet.erase_of_find?_none ha, setAttributes_self h.2]; rfl
  | some a =>
    simp only [EStateM.run_bind, run_removeAttribute, h.2, AttributeSet.name_of_find? ha, ha,
      EStateM.run_pure]

theorem run_unassign_of_error {e : Error}
    (h : t.targetDirectory c (.unassignFromNonDirectory c.path) = .error e) :
    (unassign c).run t = .error e t := by
  simp only [unassign, EStateM.run_bind, EStateM.run_get, h, run_ofExcept_error]

/-- The target is a directory, or both fail without a change. -/
theorem directory_or_error (t : Tree) (c : Chain) (wrong : Error) :
    (∃ id n, t.Targets c id n ∧ n.isDirectory) ∨ ∃ e, t.targetDirectory c wrong = .error e := by
  rcases t.targets_or_missing c with ⟨id, n, h⟩ | h
  · cases hd : n.isDirectory with
    | true => exact Or.inl ⟨id, n, h, hd⟩
    | false => exact Or.inr ⟨wrong, by rw [targetDirectory_of_targets h, hd]; rfl⟩
  · exact Or.inr ⟨_, targetDirectory_of_missing h wrong⟩

theorem altered_assign (c : Chain) (p : Policy) (hk : touchable PolicyName.key) (t : Tree) :
    t.Altered touchable (stateAfter (assign c p) t) := by
  unfold stateAfter
  rcases t.directory_or_error c (.assignToNonDirectory c.path) with ⟨id, n, h, hd⟩ | ⟨e, h⟩
  · rw [run_assign h hd]; exact .single (.put h.2 hk)
  · rw [run_assign_of_error h]

theorem altered_unassign (c : Chain) (hk : touchable PolicyName.key) (t : Tree) :
    t.Altered touchable (stateAfter (unassign c) t) := by
  unfold stateAfter
  rcases t.directory_or_error c (.unassignFromNonDirectory c.path) with ⟨id, n, h, hd⟩ | ⟨e, h⟩
  · rw [run_unassign h hd]; exact .single (.erase h.2 hk)
  · rw [run_unassign_of_error h]

/-! ## New nodes -/

theorem childOf_ok {r : Option NodeId} (h : t.childOf dir name path = .ok r) :
    ∃ d, t.node? dir = some d ∧ d.isDirectory ∧ d.child? name = r := by
  unfold childOf at h
  split at h
  · cases h
  · rename_i d hd
    refine ⟨d, hd, ?_⟩
    unfold Node.child? Node.children? Node.isDirectory at *
    cases hk : d.kind with
    | directory children => rw [hk] at h; exact ⟨rfl, by simpa using h⟩
    | file raw => rw [hk] at h; cases h
    | link target => rw [hk] at h; cases h

theorem run_insert {d : Node} (hd : t.node? dir = some d) (hdir : d.isDirectory) (name : String)
    (kind : NodeKind) : (insert dir name kind).run t = .ok t.size (t.add dir name kind) := by
  have h : t.isDirectory dir := (isDirectory_of_node? hd).trans hdir
  simp only [insert, EStateM.run_bind, EStateM.run_get, h, if_true, EStateM.run_set, EStateM.run_pure]

/-- A walk with names left goes on from the child under the first one; the tree is still the same. -/
theorem run_makeUnder_onward {child : NodeId} (hc : t.childOf dir name path = .ok (some child)) (kind : NodeKind)
    {rest : List String} (hrest : rest ≠ []) :
    (makeUnder path kind dir (name :: rest)).run t = (makeUnder path kind child rest).run t := by
  obtain ⟨next, more, rfl⟩ := List.exists_cons_of_ne_nil hrest
  simp only [makeUnder, EStateM.run_bind, EStateM.run_get, hc, run_ofExcept_ok]

/-- **A walk to a new node** fails and changes nothing, or adds the one node, in the directory to which all
names but the last lead. -/
theorem run_makeUnder (path : String) (kind : NodeKind) : ∀ (names : List String) (dir : NodeId) (t : Tree),
    (∃ e, (makeUnder path kind dir names).run t = .error e t) ∨
      ∃ above name dir' d, names = above ++ [name] ∧
        (t.trail (some dir) above).getLast? = some (some dir') ∧ t.node? dir' = some d ∧ d.isDirectory ∧
        d.child? name = none ∧
        (makeUnder path kind dir names).run t = .ok t.size (t.add dir' name kind) := by
  intro names
  induction names with
  | nil => intro dir t; exact Or.inl ⟨_, rfl⟩
  | cons name rest ih =>
    intro dir t
    cases hc : t.childOf dir name path with
    | error e =>
      -- the walk ends here, under whatever names are left
      left; refine ⟨e, ?_⟩
      cases rest <;>
        simp only [makeUnder, EStateM.run_bind, EStateM.run_get, hc, run_ofExcept_error]
    | ok r =>
      obtain ⟨d, hd, hdir, hr⟩ := childOf_ok hc
      cases rest with
      | nil =>
        cases r with
        | some id =>
          left; refine ⟨.pathExists path, ?_⟩
          simp only [makeUnder, EStateM.run_bind, EStateM.run_get, hc, run_ofExcept_ok, run_throw]
        | none =>
          -- the last name is free: this is where the node is added
          right; refine ⟨[], name, dir, d, rfl, rfl, hd, hdir, hr, ?_⟩
          simp only [makeUnder, EStateM.run_bind, EStateM.run_get, hc, run_ofExcept_ok,
            run_insert hd hdir]
      | cons next rest =>
        cases r with
        | none =>
          left; refine ⟨.parentMissing path, ?_⟩
          simp only [makeUnder, EStateM.run_bind, EStateM.run_get, hc, run_ofExcept_ok, run_throw]
        | some id =>
          rw [run_makeUnder_onward hc kind (List.cons_ne_nil next rest)]
          rcases ih id t with h | ⟨above, last, dir', d', hnames, hlast, h⟩
          · exact Or.inl h
          · right; refine ⟨name :: above, last, dir', d', by rw [hnames]; rfl, ?_, h⟩
            have hchild : t.child? dir name = some id := (child?_of_node? hd name).trans hr
            exact getLast?_trail_cons_iff.2 ⟨id, hchild, hlast⟩

/-- **Making a node** fails and changes nothing, or adds the one node. -/
theorem run_make (path : String) (kind : NodeKind) (t : Tree) :
    (∃ e, (make path kind).run t = .error e t) ∨
      ∃ above name dir d, Path.normalize path = .ok (above ++ [name]) ∧
        (t.trail (some root) above).getLast? = some (some dir) ∧ t.node? dir = some d ∧ d.isDirectory ∧
        d.child? name = none ∧ (make path kind).run t = .ok t.size (t.add dir name kind) := by
  simp only [make, EStateM.run_bind]
  cases hp : Path.normalize path with
  | error e => exact Or.inl ⟨e, rfl⟩
  | ok names =>
    simp only [run_ofExcept_ok]
    rcases run_makeUnder path kind names root t with h | ⟨above, name, dir, d, rfl, h⟩
    · exact Or.inl h
    · exact Or.inr ⟨above, name, dir, d, rfl, h⟩

theorem altered_make (path : String) {kind : NodeKind} (hkind : kind.HoldsNothing) (t : Tree) :
    t.Altered touchable (stateAfter (make path kind) t) := by
  unfold stateAfter
  rcases run_make path kind t with ⟨e, h⟩ | ⟨above, name, dir, d, hp, -, hd, hdir, hfree, h⟩
  · rw [h]
  · have hname := Path.isName_of_normalize hp name (List.mem_append_right _ (List.mem_singleton_self name))
    rw [h]; exact .single (.add hd hdir hfree hname hkind)

theorem widens_makeDirectory (path : String) (t : Tree) :
    ReflTransGen Widens t (stateAfter (makeDirectory path) t) := by
  unfold stateAfter makeDirectory
  rcases run_make path .emptyDirectory t with ⟨e, h⟩ | ⟨above, name, dir, d, hp, -, hd, hdir, hfree, h⟩
  · rw [h]
  · have hname := Path.isName_of_normalize hp name (List.mem_append_right _ (List.mem_singleton_self name))
    rw [h]
    exact .single (.add hd hdir hfree hname)

theorem widens_makeDirectoriesUnder (path : String) : ∀ (names : List String) (dir : NodeId) (t : Tree),
    (∀ name ∈ names, Path.IsName name) →
      ReflTransGen Widens t (stateAfter (makeDirectoriesUnder path dir names) t) := by
  intro names
  induction names with
  | nil => intro dir t _; exact .refl
  | cons name rest ih =>
    intro dir t hn
    have hrest : ∀ n ∈ rest, Path.IsName n := fun n hm => hn n (List.mem_cons_of_mem _ hm)
    unfold stateAfter
    simp only [makeDirectoriesUnder, EStateM.run_bind, EStateM.run_get]
    cases hc : t.childOf dir name path with
    | error e => exact .refl
    | ok r =>
      obtain ⟨d, hd, hdir, hr⟩ := childOf_ok hc
      simp only [run_ofExcept_ok]
      cases r with
      | some id =>
        simp only [EStateM.run_bind, EStateM.run_get]
        by_cases hdir : t.isDirectory id
        · rw [if_pos hdir]; exact ih id t hrest
        · rw [if_neg hdir]; exact .refl
      | none =>
        simp only [EStateM.run_bind, run_insert hd hdir]
        have hadd : t.Widens (t.add dir name .emptyDirectory) := .add hd hdir hr (hn name List.mem_cons_self)
        -- the walk goes on from the directory just added
        exact .head hadd (ih t.size _ hrest)

/-- **Making directories adds empty ones**, however it ends. -/
theorem widens_makeDirectories (path : String) (t : Tree) :
    ReflTransGen Widens t (stateAfter (makeDirectories path) t) := by
  unfold stateAfter
  simp only [makeDirectories, EStateM.run_bind]
  cases hp : Path.normalize path with
  | error e => exact .refl
  | ok names => exact widens_makeDirectoriesUnder path names root t (Path.isName_of_normalize hp)

theorem altered_makeDirectories (path : String) (t : Tree) :
    t.Altered touchable (stateAfter (makeDirectories path) t) := by
  have hle : Widens ≤ Alters touchable := fun _ _ h => h.alters
  exact ReflTransGen.mono hle _ _ (widens_makeDirectories path t)

end Tree

end PolicyTree
