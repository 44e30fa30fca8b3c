import PolicyTree.Proofs.Discipline
import PolicyTree.Proofs.Outcomes

/-!
# Calls to different directories

Two calls that give directories policies or take them away do not get in each other's way, as long as their
directories are different.

* `Checker.ByPath`: a permission checker that looks at the mode and the path only.
* `PolicyCall`: a changing call as data, and `PolicyCall.leaves`: the attributes that it leaves on its
  directory, which depend on no other node.
* `Session.Beside`: a session that differs in the attributes of one node and in the log. A call to another
  directory is admitted there as well (`Admits.beside`).
* `PolicyCall.Agrees`: the answers to a call agree, but for the policy that is shown once another is taken away.
* `calls_commute`: **two calls to different directories commute.**
-/

namespace PolicyTree

/-- **A permission checker looks at the mode and the path only.** -/
def Checker.ByPath (checker : Checker) : Prop :=
  ∃ decision : AccessMode → String → Except Error Unit, ∀ t c use, checker t c use = decision use c.path

theorem Checker.byPath_allowAll : Checker.allowAll.ByPath := ⟨fun _ _ => .ok (), fun _ _ _ => rfl⟩

theorem DenyRule.byPath_checker (rule : DenyRule) : rule.checker.ByPath :=
  ⟨fun use path => if rule.applies path use then .error (.denied rule.kind path) else .ok (), fun _ _ _ => rfl⟩

/-- A call that gives a directory a policy, or takes its policy away. -/
inductive PolicyCall where
  | assign (path name : String) (retry : Option RetryToken)
  | unassign (path : String) (retry : Option RetryToken)
  deriving DecidableEq, Repr

namespace PolicyCall

/-- The path of the directory. -/
def path : PolicyCall → String
  | .assign path _ _ => path
  | .unassign path _ => path

/-- The name of the policy, if one is given. -/
def name? : PolicyCall → Option String
  | .assign _ name _ => some name
  | .unassign _ _ => none

/-- The step that makes the call. -/
def step : PolicyCall → Step
  | .assign path name retry => .assignPolicy path name retry
  | .unassign path retry => .unassignPolicy path retry

/-- **The attributes that a call leaves on its directory.** -/
def leaves (x : PolicyCall) (n : Node) : AttributeSet :=
  match x with
  | .assign _ name _ => n.attributes.put (PolicyName.toAttribute name)
  | .unassign _ _ => n.attributes.erase PolicyName.key

/-- **Two answers to a call agree.** An assignment is answered alike in all. When a policy is taken away, what
is taken is the same, and so is all that is shown of the directory but the policy that is now in force, and
that too if the calls are apart. -/
def Agrees (x : PolicyCall) (apart : Prop) (a a' : Answer) : Prop :=
  match x with
  | .assign _ _ _ => ∃ o events, a = .traced (.ok (.assignOutcome o)) events ∧ a' = a
  | .unassign _ _ => ∃ o o' events, a = .traced (.ok (.unassignOutcome o)) events ∧
      a' = .traced (.ok (.unassignOutcome o')) events ∧ o'.removed = o.removed ∧
      o'.status = { o.status with policy := o'.status.policy } ∧ (apart → o' = o)

end PolicyCall

variable {s s' : Session} {x y : PolicyCall} {c : Chain} {d d' : NodeId} {n : Node}

namespace Tree

variable {t : Tree}

/-- A directory that was given a policy governs its chain alone. -/
theorem not_governs_of_assigned {p : Policy} (ht : t.Targets c d n) (hne : d ≠ d') :
    ¬(t.assigned d n p).Governs d' c := by
  rintro ⟨above, below, he, hbelow⟩
  have hlast : c.entries.getLast? = some (some d) := Option.join_eq_some_iff.1 ht.1
  rw [he] at hlast
  by_cases hnil : below = []
  · subst hnil
    rw [List.getLast?_concat] at hlast
    exact hne (Option.some.inj (Option.some.inj hlast)).symm
  · -- the directory stands below, and it is not silent
    have hmem : some d ∈ below := by
      rw [List.getLast?_append_of_ne_nil _ (List.cons_ne_nil _ _), List.getLast?_cons_of_ne_nil hnil] at hlast
      exact List.mem_of_getLast? hlast
    obtain ⟨-, hnone⟩ := hbelow (some d) hmem _ (node?_setAttributes_self ht.2 _)
    rw [AttributeSet.find?_put_policy] at hnone
    cases hnone

end Tree

namespace Session

/-- **A session differs in the attributes of one node**, and in the log. -/
structure Beside (s : Session) (d : NodeId) (s' : Session) : Prop where
  tree : ∃ attributes, s'.tree = s.tree.setAttributes d attributes
  config : s'.config = s.config
  registry : s'.registry = s.registry
  lock : s'.lock = s.lock
  checker : s'.checker = s.checker

/-- **A call is admitted on a directory.** -/
structure Admits (s : Session) (x : PolicyCall) (c : Chain) (d : NodeId) (n : Node) : Prop where
  named : ∀ name, x.name? = some name → ∃ p, s.registry.require name = .ok p
  granted : ∃ seen, s.grant .write (some .write) x.path = (.ok c, seen)
  target : s.tree.Targets c d n
  directory : n.isDirectory

/-! ## Beside a change -/

namespace Beside

theorem chain (h : s.Beside d' s') (path : String) : s'.tree.chain path = s.tree.chain path := by
  obtain ⟨attributes, htree⟩ := h.tree
  rw [htree]
  exact (Tree.sameShape_setAttributes s.tree d' attributes).chain path

/-- **The same is granted** beside a change, if the checker looks at the path only. -/
theorem grant (h : s.Beside d' s') (hchecker : s.checker.ByPath) (mode : LockMode) (ask : Option AccessMode)
    (path : String) : s'.grant mode ask path = s.grant mode ask path := by
  obtain ⟨decision, hdecision⟩ := hchecker
  have hpermit : ∀ c, s'.permit c ask = s.permit c ask := by
    intro c
    cases ask with
    | none => rfl
    | some use => simp only [permit, h.config, h.checker, hdecision]
  have hquestions : ∀ c, s'.questions c ask = s.questions c ask := by
    intro c
    cases ask with
    | none => rfl
    | some use => simp only [questions, h.config]
  unfold Session.grant
  simp only [h.lock, h.chain, hpermit, hquestions]

theorem targets (h : s.Beside d' s') (ht : s.tree.Targets c d n) (hne : d ≠ d') : s'.tree.Targets c d n := by
  obtain ⟨attributes, htree⟩ := h.tree
  refine ⟨ht.1, ?_⟩
  rw [htree, Tree.node?_setAttributes_of_ne hne.symm, ht.2]

end Beside

/-- **A call to another directory is admitted as before.** -/
theorem Admits.beside (h : s.Admits x c d n) (hbeside : s.Beside d' s') (hchecker : s.checker.ByPath)
    (hne : d ≠ d') : s'.Admits x c d n where
  named := by rw [hbeside.registry]; exact h.named
  granted := by rw [hbeside.grant hchecker]; exact h.granted
  target := hbeside.targets h.target hne
  directory := h.directory

/-! ## What an admitted call does -/

/-- A call that succeeds was admitted. -/
theorem admits_of_ok {v : Value} {events : List Event} (h : (s.step x.step).1 = .traced (.ok v) events) :
    ∃ c d n, s.Admits x c d n := by
  cases x with
  | assign path name retry =>
    rcases s.assignPolicy_cases path name retry with ⟨e, seen, hfail, -⟩ | ⟨p, c, d, n, seen, hp, hg, ht, hdir⟩
    · rw [PolicyCall.step, step, traced_map hfail] at h; cases h
    · refine ⟨c, d, n, ⟨fun name' hname => ?_, ⟨seen, hg⟩, ht, hdir⟩⟩
      cases hname
      exact ⟨p, hp⟩
  | unassign path retry =>
    rcases s.unassignPolicy_cases path retry with ⟨e, hfail⟩ | ⟨c, d, n, seen, hg, ht, hdir⟩
    · rw [PolicyCall.step, step, traced_map hfail] at h; cases h
    · exact ⟨c, d, n, ⟨nofun, ⟨seen, hg⟩, ht, hdir⟩⟩

/-- **A policy that is given**: the answer, and the session afterwards. -/
theorem Admits.step_assign {path name : String} {retry : Option RetryToken}
    (h : s.Admits (.assign path name retry) c d n) : ∃ p seen, s.registry.require name = .ok p ∧
      s.grant .write (some .write) path = (.ok c, seen) ∧
      s.step (.assignPolicy path name retry) =
        (.traced (.ok (.assignOutcome (s.assigns c d n p))) (seen ++ [.audit c.path]), { s with
          tree := s.tree.assigned d n p
          log := s.log.record ⟨.set, c.path, [PolicyName.toAttribute p.name], retry⟩ }) := by
  obtain ⟨p, hp⟩ := h.named name rfl
  obtain ⟨seen, hg⟩ := h.granted
  exact ⟨p, seen, hp, hg, traced_map (perform_assignPolicy_of_directory hp hg h.target h.directory)⟩

/-- **A policy that is taken away**: the answer, and the session afterwards. If there was none, the tree and
the log are as they were. -/
theorem Admits.step_unassign {path : String} {retry : Option RetryToken}
    (h : s.Admits (.unassign path retry) c d n) : ∃ seen,
      s.grant .write (some .write) path = (.ok c, seen) ∧
      s.step (.unassignPolicy path retry) =
        (.traced (.ok (.unassignOutcome (s.unassigns c d n)))
          (seen ++ (n.attributes.find? PolicyName.key).toList.map fun _ => .audit c.path), { s with
          tree := s.tree.unassigned d n
          log := s.log.recordAll ((n.attributes.find? PolicyName.key).toList.map
            fun a => ⟨.removed, c.path, [a], retry⟩) }) := by
  obtain ⟨seen, hg⟩ := h.granted
  have hperform : s.perform (Call.unassignPolicy path retry) = _ :=
    perform_unassignPolicy_of_directory hg h.target h.directory
  refine ⟨seen, hg, ?_⟩
  cases ha : n.attributes.find? PolicyName.key with
  | none =>
    rw [ha] at hperform
    rw [Tree.unassigned_of_none h.target.2 ha, Option.toList_none, List.map_nil, List.map_nil,
      List.append_nil]
    exact traced_map hperform
  | some a =>
    rw [ha] at hperform
    exact traced_map hperform

/-- **A call changes its directory alone**, in a way that depends on nothing else. -/
theorem Admits.tree (h : s.Admits x c d n) (hw : s.WellFormed) :
    (s.step x.step).2.tree = s.tree.setAttributes d (x.leaves n) := by
  cases x with
  | assign path name retry =>
    obtain ⟨p, seen, hp, -, hstep⟩ := h.step_assign
    have hname : p.name = name :=
      (hw.registry.enabledNamed?_eq_some_iff.1 (Registry.require_eq_ok_iff.1 hp)).2
    rw [PolicyCall.step, hstep, ← hname]
    rfl
  | unassign path retry =>
    obtain ⟨seen, -, hstep⟩ := h.step_unassign
    rw [PolicyCall.step, hstep]
    rfl

theorem Admits.step_beside (h : s.Admits x c d n) (hw : s.WellFormed) : s.Beside d (s.step x.step).2 := by
  have htree := h.tree hw
  cases x with
  | assign path name retry =>
    obtain ⟨p, seen, -, -, hstep⟩ := h.step_assign
    rw [PolicyCall.step, hstep] at htree ⊢
    exact ⟨⟨_, htree⟩, rfl, rfl, rfl, rfl⟩
  | unassign path retry =>
    obtain ⟨seen, -, hstep⟩ := h.step_unassign
    rw [PolicyCall.step, hstep] at htree ⊢
    exact ⟨⟨_, htree⟩, rfl, rfl, rfl, rfl⟩

/-! ## What is answered -/

/-- **What is in force at a directory, seen beside a change of a node that does not govern it.** -/
theorem Beside.inForce (h : s.Beside d' s') (hne : d ≠ d') (a : AttributeSet)
    (hgoverns : ¬(s.tree.setAttributes d a).Governs d' c) (r : Registry) :
    (s'.tree.setAttributes d a).inForce r c = (s.tree.setAttributes d a).inForce r c := by
  obtain ⟨a', htree⟩ := h.tree
  rw [htree, Tree.setAttributes_comm hne.symm]
  exact Tree.inForce_setAttributes_of_not_governs hgoverns a'

/-- **A call is answered alike** beside a change of another directory. -/
theorem Admits.agrees (h : s.Admits x c d n) (hw : s.WellFormed) (hbeside : s.Beside d' s')
    (hchecker : s.checker.ByPath) (hne : d ≠ d') :
    x.Agrees (d' ∉ s.tree.lineage d) (s.step x.step).1 (s'.step x.step).1 := by
  have h' := h.beside hbeside hchecker hne
  cases x with
  | assign path name retry =>
    obtain ⟨p, seen, hp, hg, hstep⟩ := h.step_assign
    obtain ⟨p', seen', hp', hg', hstep'⟩ := h'.step_assign
    -- the same policy and the same chain are found
    obtain rfl : p' = p := by rw [hbeside.registry, hp] at hp'; exact (Except.ok.inj hp').symm
    obtain rfl : seen' = seen := by
      rw [hbeside.grant hchecker, hg] at hg'; exact (Prod.mk.inj hg').2.symm
    have hforce := hbeside.inForce hne _ (Tree.not_governs_of_assigned (p := p') h.target hne) s.registry
    have hassigns : s'.assigns c d n p' = s.assigns c d n p' := by
      unfold assigns Tree.statusAt
      rw [hbeside.registry]
      unfold Tree.assigned
      rw [hforce]
    refine ⟨s.assigns c d n p', seen' ++ [.audit c.path], ?_, ?_⟩
    · rw [PolicyCall.step, hstep]
    · rw [PolicyCall.step, hstep, hstep', hassigns]
  | unassign path retry =>
    obtain ⟨seen, hg, hstep⟩ := h.step_unassign
    obtain ⟨seen', hg', hstep'⟩ := h'.step_unassign
    obtain rfl : seen' = seen := by
      rw [hbeside.grant hchecker, hg] at hg'; exact (Prod.mk.inj hg').2.symm
    refine ⟨s.unassigns c d n, s'.unassigns c d n, _, by rw [PolicyCall.step, hstep],
      by rw [PolicyCall.step, hstep'], rfl, rfl, fun hapart => ?_⟩
    -- a node that is not above the directory is not on its chain
    have hgoverns : ¬(s.tree.unassigned d n).Governs d' c := by
      rintro ⟨above, below, he, -⟩
      have hmem : some d' ∈ c.entries := by rw [he]; exact List.mem_append_right _ List.mem_cons_self
      rw [hw.tree.entries_of_target (grant_ok hg).2.1 h.target.1] at hmem
      obtain ⟨j, hj, heq⟩ := List.mem_map.1 hmem
      exact hapart (Option.some.inj heq ▸ hj)
    have hforce := hbeside.inForce hne _ hgoverns s.registry
    unfold unassigns Tree.statusAt
    rw [hbeside.registry]
    unfold Tree.unassigned
    rw [hforce]

end Session

/-- Answers that agree hand in the same records. -/
theorem PolicyCall.Agrees.recordedBy {apart : Prop} {a a' : Answer} (h : x.Agrees apart a a') :
    x.step.recordedBy a' = x.step.recordedBy a := by
  cases x with
  | assign path name retry =>
    obtain ⟨o, events, -, rfl⟩ := h
    rfl
  | unassign path retry =>
    obtain ⟨o, o', events, rfl, rfl, hremoved, hstatus, -⟩ := h
    have hpath : o'.status.path = o.status.path := by rw [hstatus]
    simp only [PolicyCall.step, Step.recordedBy, hremoved, hpath]

namespace Session

/-- **Two calls to different directories commute.** If both succeed in a session that steps lead to, then both
succeed one after the other, in either order, and come to the same tree. A policy that is given is answered
with the same outcome in both orders. So is one that is taken away, unless the other directory lies above:
then the policy that is shown to be in force may differ, and nothing else. The log gets the same records, in
the order of the calls. -/
theorem calls_commute (hs : s.Reachable) (hchecker : s.checker.ByPath)
    (hd : s.tree.lookup x.path = .ok (some d)) (hd' : s.tree.lookup y.path = .ok (some d')) (hne : d ≠ d')
    (hx : ∃ v events, (s.step x.step).1 = .traced (.ok v) events)
    (hy : ∃ v events, (s.step y.step).1 = .traced (.ok v) events) :
    let sx := (s.step x.step).2
    let sy := (s.step y.step).2
    (sx.step y.step).2.tree = (sy.step x.step).2.tree ∧
      x.Agrees (d' ∉ s.tree.lineage d) (s.step x.step).1 (sy.step x.step).1 ∧
      y.Agrees (d ∉ s.tree.lineage d') (s.step y.step).1 (sx.step y.step).1 ∧
      (sx.step y.step).2.log = s.log.recordAll
        (x.step.recordedBy (s.step x.step).1 ++ y.step.recordedBy (s.step y.step).1) ∧
      (sy.step x.step).2.log = s.log.recordAll
        (y.step.recordedBy (s.step y.step).1 ++ x.step.recordedBy (s.step x.step).1) := by
  intro sx sy
  have hw := hs.wellFormed
  obtain ⟨vx, ex, hokx⟩ := hx
  obtain ⟨vy, ey, hoky⟩ := hy
  obtain ⟨c, e, n, hax⟩ := admits_of_ok hokx
  obtain ⟨c', e', n', hay⟩ := admits_of_ok hoky
  -- the calls have found the two directories
  obtain ⟨seen, hg⟩ := hax.granted
  obtain ⟨seen', hg'⟩ := hay.granted
  obtain rfl : e = d := Option.some.inj (hax.target.1.symm.trans (Tree.last?_of_lookup hd (grant_ok hg).2.1))
  obtain rfl : e' = d' := Option.some.inj (hay.target.1.symm.trans (Tree.last?_of_lookup hd' (grant_ok hg').2.1))
  have hbx : s.Beside e sx := hax.step_beside hw
  have hby : s.Beside e' sy := hay.step_beside hw
  have hagreex := hax.agrees hw hby hchecker hne
  have hagreey := hay.agrees hw hbx hchecker hne.symm
  have hwx : sx.WellFormed := (hs.step x.step).wellFormed
  have hwy : sy.WellFormed := (hs.step y.step).wellFormed
  have htx := (hax.beside hby hchecker hne).tree hwy
  have hty := (hay.beside hbx hchecker hne.symm).tree hwx
  have htree : (sx.step y.step).2.tree = (sy.step x.step).2.tree := by
    rw [hty, htx, hax.tree hw, hay.tree hw, Tree.setAttributes_comm hne]
  refine ⟨htree, hagreex, hagreey, ?_, ?_⟩
  · rw [log_step, log_step, hagreey.recordedBy, AuditTrail.recordAll_append]
  · rw [log_step, log_step, hagreex.recordedBy, AuditTrail.recordAll_append]

/-- A directory's policy is taken away, and the directory above it is given one. -/
theorem calls_commute_nested :
    let s := (shielded.step (.assignPolicy "/a/b" "RS-6-3-1024k" none)).2
    let x : PolicyCall := .unassign "/a/b/" none
    let y : PolicyCall := .assign "/./a" "RS-6-3-1024k" (some ⟨7, 1⟩)
    let sx := (s.step x.step).2
    let sy := (s.step y.step).2
    s.Reachable ∧ s.checker.ByPath ∧ s.tree.lookup x.path = .ok (some 2) ∧
      s.tree.lookup y.path = .ok (some 1) ∧ (∃ v events, (s.step x.step).1 = .traced (.ok v) events) ∧
      (∃ v events, (s.step y.step).1 = .traced (.ok v) events) ∧
      (sx.step y.step).2.tree = (sy.step x.step).2.tree ∧
      (∃ o events, (s.step y.step).1 = .traced (.ok (.assignOutcome o)) events ∧
        (sx.step y.step).1 = .traced (.ok (.assignOutcome o)) events) ∧
      ∃ o o' events, (s.step x.step).1 = .traced (.ok (.unassignOutcome o)) events ∧
        (sy.step x.step).1 = .traced (.ok (.unassignOutcome o')) events ∧ o'.removed = o.removed := by
  intro s x y sx sy
  have hs : s.Reachable := reachable_shielded.step _
  have hchecker : s.checker.ByPath := DenyRule.byPath_checker _
  have hd : s.tree.lookup "/a/b/" = .ok (some 2) := rfl
  have hd' : s.tree.lookup "/./a" = .ok (some 1) := rfl
  have hx : ∃ v events, (s.step x.step).1 = .traced (.ok v) events := ⟨_, _, rfl⟩
  have hy : ∃ v events, (s.step y.step).1 = .traced (.ok v) events := by
    have hrequire : s.registry.require "RS-6-3-1024k" = .ok ⟨1, ⟨"rs", 6, 3⟩, systemCellSize⟩ :=
      Registry.require_eq_ok_iff.2 (by decide)
    have hgrant : s.grant .write (some .write) "/./a" = (.ok ⟨"/a", [some 0, some 1]⟩, _) := rfl
    have hadmits : s.Admits y ⟨"/a", [some 0, some 1]⟩ 1 _ :=
      ⟨fun name hname => Option.some.inj hname ▸ ⟨_, hrequire⟩, ⟨_, hgrant⟩, ⟨rfl, rfl⟩, rfl⟩
    obtain ⟨p, seen, -, -, hstep⟩ := hadmits.step_assign
    exact ⟨_, _, congrArg Prod.fst hstep⟩
  obtain ⟨htree, ⟨o, o', events, ho, ho', hremoved, -⟩, ⟨oy, eventsy, hoy, hoy'⟩, -⟩ :=
    calls_commute (x := x) (y := y) hs hchecker hd hd' (by decide) hx hy
  exact ⟨hs, hchecker, hd, hd', hx, hy, htree, ⟨oy, eventsy, hoy, hoy'.trans hoy⟩, o, o', events, ho, ho',
    hremoved⟩

end Session

end PolicyTree
