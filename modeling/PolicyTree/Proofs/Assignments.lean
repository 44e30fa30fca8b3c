import PolicyTree.Proofs.Namespace
import PolicyTree.Proofs.Repetition

/-!
# Changes along chains of any kind

The two actions that change policies take any chain, also one that is put together by hand or was found before the
tree changed. They act on what its last entry leads to.

* `Tree.Rewrites`: one node has other attributes than before, and nothing else has changed.
* `Tree.Changes`: what the two actions come to on a directory, attribute by attribute.
* `Tree.Refuses`: an action fails, names a path as the trouble, and changes nothing.
* `changes_of_targets`, `refuses_of_missing`, `refuses_of_other`: a directory is changed, and everything else refused.
* `changes_on_any_chain`: **the changes succeed exactly on directories, and change one attribute in its place.**
-/

namespace PolicyTree

variable {α : Type} {s : Session} {t t' : Tree} {c : Chain} {d : NodeId} {n : Node} {p : Policy}

namespace Tree

/-- **One node has other attributes than before**, in the given order, and nothing else has changed. -/
def Rewrites (t : Tree) (d : NodeId) (attributes : List Attribute) (t' : Tree) : Prop :=
  (∃ n, t.node? d = some n ∧ t'.node? d = some { n with attributes := ⟨attributes⟩ }) ∧
    ∀ j, j ≠ d → t'.node? j = t.node? j

/-- **An action fails**, names a path as the trouble, and changes nothing. -/
def Refuses (t : Tree) (action : Edit α) (kind : ErrorKind) (path : String) : Prop :=
  ∃ e, action.run t = .error e t ∧ e.kind = kind ∧ e.report.context = .path path

/-- **What the two changes come to on a directory.** A policy is written in the place of the one that is there, or
behind all other attributes. It is taken out from among the others, and nothing happens where there is none. -/
structure Changes (t : Tree) (c : Chain) (p : Policy) (d : NodeId) (n : Node) : Prop where
  replaced : ∀ before b after, n.attributes.toList = before ++ b :: after → b.name = PolicyName.key →
    ∃ t', (assign c p).run t = .ok ⟨p, [⟨PolicyName.key, PolicyName.encode p.name⟩], .replace⟩ t' ∧
      t.Rewrites d (before ++ ⟨PolicyName.key, PolicyName.encode p.name⟩ :: after) t'
  created : (∀ x ∈ n.attributes.toList, x.name ≠ PolicyName.key) →
    ∃ t', (assign c p).run t = .ok ⟨p, [⟨PolicyName.key, PolicyName.encode p.name⟩], .create⟩ t' ∧
      t.Rewrites d (n.attributes.toList ++ [⟨PolicyName.key, PolicyName.encode p.name⟩]) t'
  removed : ∀ before b after, n.attributes.toList = before ++ b :: after → b.name = PolicyName.key →
    ∃ t', (unassign c).run t = .ok (some [b]) t' ∧ t.Rewrites d (before ++ after) t' ∧
      ∀ x ∈ before ++ after, x.name ≠ PolicyName.key
  absent : (∀ x ∈ n.attributes.toList, x.name ≠ PolicyName.key) → (unassign c).run t = .ok none t

theorem rewrites_setAttributes (hn : t.node? d = some n) (l : List Attribute) :
    t.Rewrites d l (t.setAttributes d ⟨l⟩) :=
  ⟨⟨n, hn, node?_setAttributes_self hn _⟩, fun _ hj => node?_setAttributes_of_ne (Ne.symm hj) _⟩

/-- **On a directory both changes succeed**, as far as its attributes have different names. -/
theorem changes_of_targets (h : t.Targets c d n) (hdir : n.isDirectory) (hdistinct : n.attributes.Distinct)
    (p : Policy) : t.Changes c p d n where
  replaced := by
    intro before b after hsplit hb
    have hfound : n.attributes.find? PolicyName.key = some b := hdistinct.find?_of_split hsplit hb
    have hput : n.attributes.put (PolicyName.toAttribute p.name) =
        ⟨before ++ PolicyName.toAttribute p.name :: after⟩ := hdistinct.put_of_split hsplit hb
    refine ⟨_, ?_, rewrites_setAttributes h.2 _⟩
    rw [run_assign h hdir, hfound, hput]
    rfl
  created := by
    intro hfree
    have hfound : n.attributes.find? PolicyName.key = none := AttributeSet.find?_eq_none_iff.2 hfree
    have hput : n.attributes.put (PolicyName.toAttribute p.name) =
        ⟨n.attributes.toList ++ [PolicyName.toAttribute p.name]⟩ := AttributeSet.put_of_absent hfree
    refine ⟨_, ?_, rewrites_setAttributes h.2 _⟩
    rw [run_assign h hdir, hfound, hput]
    rfl
  removed := by
    intro before b after hsplit hb
    have hfound : n.attributes.find? PolicyName.key = some b := hdistinct.find?_of_split hsplit hb
    refine ⟨_, ?_, rewrites_setAttributes h.2 _, fun x hx => hb ▸ hdistinct.ne_of_split hsplit x hx⟩
    rw [run_unassign h hdir, hfound, hdistinct.erase_of_split hsplit hb]
    rfl
  absent := by
    intro hfree
    have hfound : n.attributes.find? PolicyName.key = none := AttributeSet.find?_eq_none_iff.2 hfree
    rw [run_unassign h hdir, hfound, AttributeSet.erase_of_find?_none hfound, setAttributes_self h.2]
    rfl

/-- The chain leads nowhere: to no entry, or to an id that no node has. -/
theorem refuses_of_missing (h : ∀ d n, ¬t.Targets c d n) (p : Policy) :
    t.Refuses (assign c p) .notFound c.path ∧ t.Refuses (unassign c) .notFound c.path := by
  have hmissing : c.last?.bind t.node? = none :=
    (t.targets_or_missing c).resolve_left fun ⟨d, n, htarget⟩ => h d n htarget
  exact ⟨⟨_, run_assign_of_error (targetDirectory_of_missing hmissing _) p, rfl, rfl⟩,
    ⟨_, run_unassign_of_error (targetDirectory_of_missing hmissing _), rfl, rfl⟩⟩

/-- The chain leads to a file or a link. -/
theorem refuses_of_other (h : t.Targets c d n) (hdir : ¬n.isDirectory) (p : Policy) :
    t.Refuses (assign c p) .notADirectory c.path ∧ t.Refuses (unassign c) .notADirectory c.path := by
  have hwrong : ∀ wrong, t.targetDirectory c wrong = .error wrong := fun wrong => by
    rw [targetDirectory_of_targets h, if_neg hdir]
  exact ⟨⟨_, run_assign_of_error (hwrong _) p, rfl, rfl⟩, ⟨_, run_unassign_of_error (hwrong _), rfl, rfl⟩⟩

/-- A chain leads to a directory, or both actions are refused along it. -/
theorem directory_or_refuses (t : Tree) (c : Chain) (p : Policy) :
    (∃ d n, t.Targets c d n ∧ n.isDirectory) ∨
      ∃ kind, t.Refuses (assign c p) kind c.path ∧ t.Refuses (unassign c) kind c.path := by
  by_cases h : ∃ d n, t.Targets c d n
  · obtain ⟨d, n, h⟩ := h
    by_cases hdir : n.isDirectory
    · exact .inl ⟨d, n, h, hdir⟩
    · exact .inr ⟨_, refuses_of_other h hdir p⟩
  · exact .inr ⟨_, refuses_of_missing (fun d n htarget => h ⟨d, n, htarget⟩) p⟩

namespace Refuses

variable {action : Edit α} {kind : ErrorKind} {path : String}

theorem not_ok (h : t.Refuses action kind path) (o : α) (t' : Tree) : action.run t ≠ .ok o t' := by
  obtain ⟨e, hrun, -⟩ := h
  rw [hrun]
  exact nofun

/-- What the attributes of a node turn down names no path, so it is not what is refused. -/
theorem not_attribute_fault {e : Error} (h : t.Refuses action kind path) (he : action.run t = .error e t') :
    e ≠ .attributeExists ∧ e ≠ .attributeMissing := by
  obtain ⟨e', hrun, -, hcontext⟩ := h
  rw [hrun] at he; cases he
  constructor
  · rintro rfl; cases hcontext
  · rintro rfl; cases hcontext

end Refuses

end Tree

namespace Session

/-- **The changes along a chain of any kind**, in every session that steps lead to, and of any policy.

Both succeed exactly if the last entry of the chain leads to a directory, whatever the others are. Then one attribute
of the directory changes in its place and nothing else does. Otherwise both fail, name the chain's path and leave
the tree alone. The attributes' own faults never show: what is asked of them always fits what they hold. -/
theorem changes_on_any_chain (hs : s.Reachable) (c : Chain) (p : Policy) :
    ((∃ o t', (Tree.assign c p).run s.tree = .ok o t') ↔ ∃ d n, s.tree.Targets c d n ∧ n.isDirectory) ∧
      ((∃ o t', (Tree.unassign c).run s.tree = .ok o t') ↔ ∃ d n, s.tree.Targets c d n ∧ n.isDirectory) ∧
      (∀ d n, s.tree.Targets c d n → n.isDirectory → s.tree.Changes c p d n) ∧
      ((∀ d n, ¬s.tree.Targets c d n) →
        s.tree.Refuses (Tree.assign c p) .notFound c.path ∧ s.tree.Refuses (Tree.unassign c) .notFound c.path) ∧
      (∀ d n, s.tree.Targets c d n → ¬n.isDirectory →
        s.tree.Refuses (Tree.assign c p) .notADirectory c.path ∧
          s.tree.Refuses (Tree.unassign c) .notADirectory c.path) ∧
      ∀ e t', (Tree.assign c p).run s.tree = .error e t' ∨ (Tree.unassign c).run s.tree = .error e t' →
        e ≠ .attributeExists ∧ e ≠ .attributeMissing := by
  refine ⟨⟨?_, ?_⟩, ⟨?_, ?_⟩, ?_, fun h => Tree.refuses_of_missing h p,
    fun d n h hdir => Tree.refuses_of_other h hdir p, ?_⟩
  · rintro ⟨o, t', hok⟩
    exact (s.tree.directory_or_refuses c p).resolve_right fun ⟨_, hassign, _⟩ => hassign.not_ok o t' hok
  · rintro ⟨d, n, h, hdir⟩
    exact ⟨_, _, Tree.run_assign h hdir p⟩
  · rintro ⟨o, t', hok⟩
    exact (s.tree.directory_or_refuses c p).resolve_right fun ⟨_, _, hunassign⟩ => hunassign.not_ok o t' hok
  · rintro ⟨d, n, h, hdir⟩
    exact ⟨_, _, Tree.run_unassign h hdir⟩
  · intro d n h hdir
    exact Tree.changes_of_targets h hdir (hs.wellFormed.tree.distinct h.2) p
  · intro e t' hfail
    rcases s.tree.directory_or_refuses c p with ⟨d, n, h, hdir⟩ | ⟨kind, hassign, hunassign⟩
    · rcases hfail with hfail | hfail
      · rw [Tree.run_assign h hdir] at hfail; cases hfail
      · rw [Tree.run_unassign h hdir] at hfail; cases hfail
    · exact hfail.elim hassign.not_attribute_fault hunassign.not_attribute_fault

/-- An unknown policy is given along chains put together by hand: to a directory whose policy attribute stands between
two others, and to one without attributes. Chains that end at a free id, at nothing and at a file are refused. -/
theorem changes_on_any_chain_crowded :
    crowded.Reachable ∧ furnished.Reachable ∧
      (∃ t', (Tree.assign ⟨"x", [none, some 9, some 1]⟩ ⟨77, ⟨"tape", 1, 0⟩, 2048⟩).run crowded.tree =
          .ok ⟨⟨77, ⟨"tape", 1, 0⟩, 2048⟩, [⟨PolicyName.key, PolicyName.encode "TAPE-1-0-2k"⟩], .replace⟩ t' ∧
        crowded.tree.Rewrites 1
          [⟨"user.x", [1]⟩, ⟨PolicyName.key, PolicyName.encode "TAPE-1-0-2k"⟩, ⟨"user.y", [2]⟩] t') ∧
      (∃ t', (Tree.unassign ⟨"x", [none, some 9, some 1]⟩).run crowded.tree = .ok (some [⟨PolicyName.key, []⟩]) t' ∧
        crowded.tree.Rewrites 1 [⟨"user.x", [1]⟩, ⟨"user.y", [2]⟩] t') ∧
      (Tree.unassign ⟨"", [some 1, some 2]⟩).run crowded.tree = .ok none crowded.tree ∧
      crowded.tree.Refuses (Tree.unassign ⟨"/a", [some 1, some 9]⟩) .notFound "/a" ∧
      crowded.tree.Refuses (Tree.unassign ⟨"", []⟩) .notFound "" ∧
      furnished.tree.Refuses (Tree.unassign ⟨"/b", [some 3]⟩) .notADirectory "/b" := by
  have hs : crowded.Reachable := reachable_damaged.run _
  obtain ⟨-, -, hdirectory, -⟩ := changes_on_any_chain hs ⟨"x", [none, some 9, some 1]⟩ ⟨77, ⟨"tape", 1, 0⟩, 2048⟩
  obtain ⟨-, -, hplain, -⟩ := changes_on_any_chain hs ⟨"", [some 1, some 2]⟩ ⟨77, ⟨"tape", 1, 0⟩, 2048⟩
  obtain ⟨-, -, -, hunknown, -⟩ := changes_on_any_chain hs ⟨"/a", [some 1, some 9]⟩ ⟨77, ⟨"tape", 1, 0⟩, 2048⟩
  obtain ⟨-, -, -, hempty, -⟩ := changes_on_any_chain hs ⟨"", []⟩ ⟨77, ⟨"tape", 1, 0⟩, 2048⟩
  obtain ⟨-, -, -, -, hfile, -⟩ :=
    changes_on_any_chain reachable_furnished ⟨"/b", [some 3]⟩ ⟨77, ⟨"tape", 1, 0⟩, 2048⟩
  have hchanges := hdirectory 1 _ ⟨rfl, rfl⟩ rfl
  obtain ⟨t', hrun, hrewrites, -⟩ := hchanges.removed [⟨"user.x", [1]⟩] _ [⟨"user.y", [2]⟩] rfl rfl
  refine ⟨hs, reachable_furnished, hchanges.replaced [⟨"user.x", [1]⟩] _ [⟨"user.y", [2]⟩] rfl rfl,
    ⟨t', hrun, hrewrites⟩, (hplain 2 _ ⟨rfl, rfl⟩ rfl).absent nofun, (hunknown ?_).2, (hempty ?_).2,
    (hfile 3 _ ⟨rfl, rfl⟩ (by decide)).2⟩
  · rintro d n ⟨hlast, hn⟩
    cases hlast; cases hn
  · rintro d n ⟨hlast, -⟩
    cases hlast

end Session

end PolicyTree
