import PolicyTree.Proofs.History
import PolicyTree.Proofs.Inheritance

/-!
# Files

A file carries the number that it was made with. Nothing that happens later, to the file, to the nodes above
it or to the registry, has a say in what is in force below its path but the policies known under that number.

* `WellFormed.inForce_of_file`: **a file decides for its path and for all paths that go on from it.**
* `file_made`, `file_stays`: what a step that makes a file leaves, and that it stays.
* `file_policy_fixed`: **a file's policy is fixed when the file is made.**
-/

namespace PolicyTree

variable {α β : Type} {t : Tree} {id : NodeId} {n : Node} {raw : Int8} {path : String}
  {s s₁ s₂ : Session} {past : List (Session × Step)}

/-! ## Paths through a file -/

theorem Node.not_directory_of_file (hk : n.kind = .file raw) : ¬n.isDirectory := by
  rw [isDirectory, hk]; exact Bool.false_ne_true

namespace Tree

theorem mem_trail_append (t : Tree) {e : Option NodeId} (rest : List String) :
    ∀ (names : List String) (here : Option NodeId), e ∈ t.trail here names →
      e ∈ t.trail here (names ++ rest) := by
  intro names
  induction names with
  | nil =>
    intro here he
    rw [List.mem_singleton.1 he, List.nil_append]
    cases rest <;> exact List.mem_cons_self
  | cons name names ih =>
    intro here he
    rcases List.mem_cons.1 he with rfl | he
    · exact List.mem_cons_self
    · exact List.mem_cons_of_mem _ (ih _ he)

/-- **A node that is no directory decides for its path and for all paths that go on from it.** -/
theorem WellFormed.inForce_of_end (ht : t.WellFormed) (hn : t.node? id = some n) (hdir : ¬n.isDirectory)
    {r : Registry} {v : Except Error (Option Policy)} (hv : n.verdict? r = some v) {rest : List String}
    (hp : Path.normalize path = .ok (t.names id ++ rest)) :
    ∃ c, t.chain path = .ok c ∧ t.inForce r c = v := by
  have hc : t.chain path = .ok ⟨Path.join (t.names id ++ rest), t.trail (some root) (t.names id ++ rest)⟩ :=
    chain_eq_ok_iff.2 ⟨_, hp, rfl⟩
  -- the chain goes through the node, and no further
  have hid : some id ∈ t.trail (some root) (t.names id ++ rest) := by
    refine t.mem_trail_append rest _ _ ?_
    rw [ht.trail_names id n hn]
    exact List.mem_map_of_mem (List.mem_of_getLast? (t.getLast?_lineage id))
  refine ⟨_, hc, ?_⟩
  rw [ht.inForce_of_deepest hc (deepest_of_not_directory hc hid hn hdir), effective_of_verdict hn hv]

/-- **A file decides for its path and for all paths that go on from it.** -/
theorem WellFormed.inForce_of_file (ht : t.WellFormed) (hn : t.node? id = some n) (hk : n.kind = .file raw)
    (r : Registry) {rest : List String} (hp : Path.normalize path = .ok (t.names id ++ rest)) :
    ∃ c, t.chain path = .ok c ∧ t.inForce r c = .ok (r.ofFile? raw) :=
  ht.inForce_of_end hn (Node.not_directory_of_file hk) (Node.verdict?_of_file hk r) hp

/-- The names of a new node are those that lead to its directory, and its own. -/
theorem WellFormed.names_add (ht : t.WellFormed) {above : List String} {dir : NodeId} {d : Node}
    (hlast : (t.trail (some root) above).getLast? = some (some dir)) (hd : t.node? dir = some d)
    (name : String) (kind : NodeKind) : (t.add dir name kind).names t.size = above ++ [name] := by
  have hgrown : t.Extends (t.add dir name kind) := fun hn => continues_add hn _ _ _
  -- the names of the directory are the same before and after
  have hdir : (t.add dir name kind).names dir = above := by
    rw [hgrown.names ht dir d hd, ht.names_of_trail hlast]
  rw [names_of_parent (t.node?_add_new dir name kind) rfl (node?_lt hd), hdir]

end Tree

namespace Session

/-! ## Making a file -/

/-- A change in one action comes to what the action comes to, if the lock can be taken. -/
theorem perform_edit (s : Session) (action : Tree.Edit α) (f : α → β) :
    s.perform (Call.locked .write do return f (← Call.edit action)) = match s.lock.acquire .write with
      | .error why => ⟨.error (.lockRefused why), [.fail .write], s⟩
      | .ok _ => match action.run s.tree with
        | .ok a t => ⟨.ok (f a), [.acquire .write, .release .write], { s with tree := t }⟩
        | .error e t => ⟨.error e, [.acquire .write, .release .write], { s with tree := t }⟩ := by
  cases hl : s.lock.acquire .write with
  | error why => exact perform_locked_of_refused hl _
  | ok lock =>
    have hback := Lock.release_of_acquire hl
    cases hrun : action.run s.tree with
    | ok a t =>
      apply perform_of_ok
      rw [Call.run_locked, hl]
      simp only [EStateM.run_bind, Call.run_edit, hrun, EStateM.run_pure, hback]
      rfl
    | error e t =>
      apply perform_of_error
      rw [Call.run_locked, hl]
      simp only [EStateM.run_bind, Call.run_edit, hrun, hback]
      rfl

/-- A change in one action that succeeds has had the lock, and comes to what the action comes to. -/
theorem plain_edit_ok {action : Tree.Edit α} {f : α → Value} {v : Value}
    (h : s.plain (Call.locked .write do return f (← Call.edit action)) = (.plain (.ok v), s₁)) :
    ∃ lock a t, s.lock.acquire .write = .ok lock ∧ action.run s.tree = .ok a t ∧ v = f a ∧
      s₁ = { s with tree := t } := by
  rw [plain, perform_edit] at h
  cases hl : s.lock.acquire .write with
  | error why => rw [hl] at h; cases h
  | ok lock =>
    rw [hl] at h
    cases hrun : action.run s.tree with
    | error e t => rw [hrun] at h; cases h
    | ok a t => rw [hrun] at h; cases h; exact ⟨lock, a, t, rfl, rfl, rfl, rfl⟩

/-- **A node is made** by one addition to the tree, in the directory to which all names but the last lead. -/
theorem plain_make_ok {kind : NodeKind} {v : Value}
    (h : s.plain (Call.locked .write do return Value.id (← Call.edit (Tree.make path kind))) =
      (.plain (.ok v), s₁)) :
    ∃ above name dir d, Path.normalize path = .ok (above ++ [name]) ∧
      (s.tree.trail (some Tree.root) above).getLast? = some (some dir) ∧ s.tree.node? dir = some d ∧
      d.isDirectory ∧ d.child? name = none ∧ s₁ = { s with tree := s.tree.add dir name kind } := by
  obtain ⟨lock, id, t, -, hrun, -, rfl⟩ := plain_edit_ok h
  rcases Tree.run_make path kind s.tree with ⟨e, hmake⟩ | ⟨above, name, dir, d, hp, hlast, hd, hdir, hfree, hmake⟩
  · cases hmake.symm.trans hrun
  · cases hmake.symm.trans hrun
    exact ⟨above, name, dir, d, hp, hlast, hd, hdir, hfree, rfl⟩

/-- **A file that is made is there**, at the path that was given. -/
theorem file_made {v : Value} (hs : s.WellFormed)
    (h : s.step (.change (.makeFile path raw)) = (.plain (.ok v), s₁)) :
    ∃ id n, s₁.tree.node? id = some n ∧ n.kind = .file raw ∧
      Path.normalize path = .ok (s₁.tree.names id) := by
  rw [step] at h
  obtain ⟨above, name, dir, d, hp, hlast, hd, -, -, rfl⟩ := plain_make_ok h
  exact ⟨_, _, s.tree.node?_add_new dir name (.file raw), rfl, by rw [hp, hs.tree.names_add hlast hd]⟩

/-- **A file stays**, with its number and at its path. -/
theorem file_stays (hs : s₁.WellFormed) (hn : s₁.tree.node? id = some n) (hk : n.kind = .file raw)
    (h : History s₁ past s₂) : ∃ n', s₂.tree.node? id = some n' ∧ n'.kind = .file raw ∧
      s₂.tree.names id = s₁.tree.names id := by
  have hext : s₁.tree.Extends s₂.tree := h.tree_extends
  obtain ⟨n', hn', hc⟩ := hext hn
  exact ⟨n', hn', (hc.kind (Node.not_directory_of_file hk)).trans hk, hext.names hs.tree id n hn⟩

/-- **What files have stays**, once it is some policy. Where there is none, it can only come to be known by
being added under their number. -/
theorem History.ofFile? (h : History s₁ past s₂) (raw : Int8) :
    (∀ p, s₁.registry.ofFile? raw = some p → s₂.registry.ofFile? raw = some p) ∧
      (s₂.registry.ofFile? raw ≠ s₁.registry.ofFile? raw → s₁.registry.ofFile? raw = none ∧ 0 ≤ raw ∧
        ∃ s p, (s, Step.registry (.add p)) ∈ past ∧ p.id = raw.toUInt8 ∧
          s₂.registry.ofFile? raw = some p) := by
  unfold Registry.ofFile?
  by_cases hraw : raw < 0
  · simp only [if_pos hraw]
    exact ⟨fun _ h => h, fun hne => absurd rfl hne⟩
  · simp only [if_neg hraw]
    rcases h.byId? raw.toUInt8 with hsame | ⟨hnone, hadded⟩
    · rw [hsame]
      exact ⟨fun _ h => h, fun hne => absurd rfl hne⟩
    · rw [hnone]
      exact ⟨nofun, fun _ => ⟨rfl, Int8.not_lt.1 hraw, hadded⟩⟩

/-- **A file's policy is fixed when the file is made.** In every later session, whatever has happened in
between to the file, to the nodes above it and to the registry, what is in force for its path and for all
paths that go on from it is the policy known under the number that it was made with, and nothing under a
negative number. Once this is some policy it stays the same. It changes at all only from none, by a policy
that is added under that number. -/
theorem file_policy_fixed {v : Value} (hs : s.Reachable)
    (h : s.step (.change (.makeFile path raw)) = (.plain (.ok v), s₁)) :
    ∃ names, Path.normalize path = .ok names ∧ ∀ past s₂, History s₁ past s₂ →
      (∀ q rest, Path.normalize q = .ok (names ++ rest) → ∃ c, s₂.tree.chain q = .ok c ∧
        s₂.tree.inForce s₂.registry c = .ok (s₂.registry.ofFile? raw)) ∧
      ∀ later s₃, History s₂ later s₃ →
        (∀ p, s₂.registry.ofFile? raw = some p → s₃.registry.ofFile? raw = some p) ∧
        (s₃.registry.ofFile? raw ≠ s₂.registry.ofFile? raw → s₂.registry.ofFile? raw = none ∧ 0 ≤ raw ∧
          ∃ s p, (s, Step.registry (.add p)) ∈ later ∧ p.id = raw.toUInt8 ∧
            s₃.registry.ofFile? raw = some p) := by
  have hs₁ : s₁.WellFormed := by
    have := (hs.step (.change (.makeFile path raw))).wellFormed
    rwa [h] at this
  obtain ⟨id, n, hn, hk, hp⟩ := file_made hs.wellFormed h
  refine ⟨s₁.tree.names id, hp, fun past s₂ hpast => ⟨fun q rest hq => ?_, fun later s₃ => (·.ofFile? raw)⟩⟩
  obtain ⟨n', hn', hk', hnames⟩ := file_stays hs₁ hn hk hpast
  have ht := (hpast.wellFormed hs₁).tree
  exact ht.inForce_of_file hn' hk' _ (by rw [hnames]; exact hq)

/-- A session with a file under a number that nothing is known under. -/
def filed : Session := (initial.step (.change (.makeFile "/f" 64))).2

/-- A policy under the file's number. -/
def latePolicy : Policy := ⟨64, ⟨"rs", 4, 2⟩, systemCellSize⟩

/-- Damage on the file and above it, other changes, and then a policy that is added under the file's
number. -/
theorem file_policy_fixed_added :
    let steps : List Step := [
      .assignPolicy "/" "RS-6-3-1024k" none,
      .change (.putAttribute 1 (PolicyName.toAttribute "RS-6-3-1024k") .create),
      .change (.putAttribute 0 ⟨PolicyName.key, [7]⟩ .replace),
      .withLock .read [.registry (.disable "RS-6-3-1024k")]]
    let s₂ := (filed.run steps).2
    let s₃ := (s₂.run [.registry (.add latePolicy)]).2
    initial.Reachable ∧ initial.step (.change (.makeFile "/f" 64)) = (.plain (.ok (.id 1)), filed) ∧
      (∃ c, s₂.tree.chain "/./f/x" = .ok c ∧ s₂.tree.inForce s₂.registry c = .ok none) ∧
      (∃ c, s₃.tree.chain "/f" = .ok c ∧ s₃.tree.inForce s₃.registry c = .ok (some latePolicy)) ∧
      s₃.registry.ofFile? 64 ≠ s₂.registry.ofFile? 64 ∧ s₂.registry.ofFile? 64 = none := by
  intro steps s₂ s₃
  have hmade : initial.step (.change (.makeFile "/f" 64)) = (.plain (.ok (.id 1)), filed) := rfl
  obtain ⟨names, hnames, hfixed⟩ := file_policy_fixed reachable_initial hmade
  cases (show Path.normalize "/f" = .ok ["f"] from rfl).symm.trans hnames
  obtain ⟨past, hpast, -⟩ := history_run filed steps
  obtain ⟨later, hlater, -⟩ := history_run s₂ [.registry (.add latePolicy)]
  have hbefore : s₂.registry.ofFile? 64 = none := rfl
  have hafter : s₃.registry.ofFile? 64 = some latePolicy := rfl
  have hchange : s₃.registry.ofFile? 64 ≠ s₂.registry.ofFile? 64 := by rw [hbefore, hafter]; exact nofun
  refine ⟨reachable_initial, hmade, ?_, ?_, hchange,
    (((hfixed past s₂ hpast).2 later s₃ hlater).2 hchange).1⟩
  · rw [← hbefore]
    exact (hfixed past s₂ hpast).1 "/./f/x" ["x"] rfl
  · rw [← hafter]
    exact (hfixed _ s₃ (hpast.append hlater)).1 "/f" [] rfl

end Session

end PolicyTree
