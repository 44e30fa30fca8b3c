import PolicyTree.Proofs.Independence

/-!
# Calls to one directory, one after another

What a directory is left with by some calls depends on the calls to that directory alone, and mostly on the last.

* `Session.Completes`: some calls that all succeed, and the session after them.
* `Completes.tree`: **calls to one directory change its attributes and nothing else**, each what the one before
  has left (`PolicyCall.leaveOn`).
* `completes_of_each`: calls that succeed one by one succeed one after another, if the permission checker looks
  at the path only.
* `Tree.AgreesButOrder`: two trees differ at most in the order of the attributes of one node.
* `last_call_decides`: **the last write wins, and taking a policy away forgets it.**
-/

namespace PolicyTree

variable {s s' : Session} {x : PolicyCall} {calls : List PolicyCall} {c : Chain} {d : NodeId} {n : Node}
  {path name : String}

/-- **What calls to a directory leave of it**, the first call first. -/
def PolicyCall.leaveOn (calls : List PolicyCall) (n : Node) : Node :=
  calls.foldl (fun n x => { n with attributes := x.leaves n }) n

/-- **Two trees differ at most in the order of the attributes of one node.** -/
structure Tree.AgreesButOrder (t t' : Tree) (d : NodeId) : Prop where
  shape : t.SameShape t'
  others : ∀ j, j ≠ d → t.node? j = t'.node? j
  values : ∀ name, t.attribute? d name = t'.attribute? d name

namespace Session

/-- **Some calls that all succeed**, one after another, and the session after them. -/
inductive Completes : Session → List PolicyCall → Session → Prop
  | nil (s : Session) : Completes s [] s
  | cons {s s' : Session} {x : PolicyCall} {rest : List PolicyCall} {v : Value} {events : List Event}
      (h : (s.step x.step).1 = .traced (.ok v) events) (hrest : Completes (s.step x.step).2 rest s') :
      Completes s (x :: rest) s'

/-! ## The next call -/

theorem Beside.lookup (h : s.Beside d s') (path : String) : s'.tree.lookup path = s.tree.lookup path := by
  unfold Tree.lookup
  rw [h.chain]

/-- A call that succeeds was admitted on the directory that its path leads to. -/
theorem admits_at {v : Value} {events : List Event} (h : (s.step x.step).1 = .traced (.ok v) events)
    (hd : s.tree.lookup x.path = .ok (some d)) : ∃ c n, s.Admits x c d n := by
  obtain ⟨c, e, n, ha⟩ := admits_of_ok h
  obtain ⟨seen, hg⟩ := ha.granted
  obtain rfl : e = d := Option.some.inj (ha.target.1.symm.trans (Tree.last?_of_lookup hd (grant_ok hg).2.1))
  exact ⟨c, n, ha⟩

/-- An admitted call succeeds. -/
theorem Admits.succeeds (h : s.Admits x c d n) : ∃ v events, (s.step x.step).1 = .traced (.ok v) events := by
  cases x with
  | assign path name retry =>
    obtain ⟨p, seen, -, -, hstep⟩ := h.step_assign
    exact ⟨_, _, by rw [PolicyCall.step, hstep]⟩
  | unassign path retry =>
    obtain ⟨seen, -, hstep⟩ := h.step_unassign
    exact ⟨_, _, by rw [PolicyCall.step, hstep]⟩

/-- **A directory that takes a call takes it still when its attributes have changed.** -/
theorem Admits.again (h : s.Admits x c d n) (hbeside : s.Beside d s') (hchecker : s.checker.ByPath) :
    ∃ attributes, s'.Admits x c d { n with attributes } := by
  obtain ⟨attributes, htree⟩ := hbeside.tree
  refine ⟨attributes, ⟨by rw [hbeside.registry]; exact h.named, by rw [hbeside.grant hchecker]; exact h.granted,
    ⟨h.target.1, ?_⟩, h.directory⟩⟩
  rw [htree, Tree.node?_setAttributes_self h.target.2]

/-- **Calls that succeed one by one succeed one after another.** -/
theorem completes_of_each (hs : s.Reachable) (hchecker : s.checker.ByPath)
    (hd : ∀ x ∈ calls, s.tree.lookup x.path = .ok (some d)) (heach : ∀ x ∈ calls, ∃ s', s.Completes [x] s') :
    ∃ s', s.Completes calls s' := by
  induction calls generalizing s with
  | nil => exact ⟨s, .nil s⟩
  | cons x rest ih =>
    obtain ⟨_, hx⟩ := heach x List.mem_cons_self
    cases hx with
    | cons h =>
      obtain ⟨c, n, ha⟩ := admits_at h (hd x List.mem_cons_self)
      have hbeside := ha.step_beside hs.wellFormed
      have hrest : ∀ y ∈ rest, ∃ s', (s.step x.step).2.Completes [y] s' := by
        intro y hy
        obtain ⟨_, hy'⟩ := heach y (List.mem_cons_of_mem _ hy)
        cases hy' with
        | cons hok =>
          obtain ⟨c', n', ha'⟩ := admits_at hok (hd y (List.mem_cons_of_mem _ hy))
          obtain ⟨attributes, hagain⟩ := ha'.again hbeside hchecker
          obtain ⟨v, events, hok'⟩ := hagain.succeeds
          exact ⟨_, .cons hok' (.nil _)⟩
      obtain ⟨s', hs'⟩ := ih (hs.step x.step) (by rw [hbeside.checker]; exact hchecker)
        (fun y hy => by rw [hbeside.lookup]; exact hd y (List.mem_cons_of_mem _ hy)) hrest
      exact ⟨s', .cons h hs'⟩

/-! ## What is left -/

/-- **Calls to one directory change its attributes and nothing else.** -/
theorem Completes.tree (h : s.Completes calls s') (hs : s.Reachable)
    (hd : ∀ x ∈ calls, s.tree.lookup x.path = .ok (some d)) (hn : s.tree.node? d = some n) :
    s'.tree = s.tree.setAttributes d (PolicyCall.leaveOn calls n).attributes := by
  induction h generalizing n with
  | nil s => exact (Tree.setAttributes_self hn).symm
  | @cons s s' x rest v events h _ ih =>
    obtain ⟨c, m, ha⟩ := admits_at h (hd x List.mem_cons_self)
    obtain rfl : m = n := Option.some.inj (ha.target.2.symm.trans hn)
    have hw := hs.wellFormed
    have hbeside := ha.step_beside hw
    have htree := ha.tree hw
    have hn' : (s.step x.step).2.tree.node? d = some { m with attributes := x.leaves m } := by
      rw [htree, Tree.node?_setAttributes_self hn]
    -- the rest begins with what the first call has left
    have hrest := ih (hs.step x.step)
      (fun y hy => by rw [hbeside.lookup]; exact hd y (List.mem_cons_of_mem _ hy)) hn'
    rw [hrest, htree, Tree.setAttributes_setAttributes]
    rfl

/-- Taking a policy away where there is none does nothing. -/
theorem Admits.step_unassign_of_none {retry : Option RetryToken} (h : s.Admits (.unassign path retry) c d n)
    (hnone : n.attributes.find? PolicyName.key = none) : ∃ o events,
      s.step (.unassignPolicy path retry) = (.traced (.ok (.unassignOutcome o)) events, s) ∧ o.isNoop := by
  obtain ⟨seen, hg⟩ := h.granted
  have hperform : s.perform (Call.unassignPolicy path retry) = _ :=
    perform_unassignPolicy_of_directory hg h.target h.directory
  rw [hnone] at hperform
  refine ⟨s.unassigns c d n, seen, traced_map hperform, ?_⟩
  unfold UnassignOutcome.isNoop unassigns
  rw [hnone]; rfl

end Session

/-- Attributes that no look-up tells apart make trees that differ at most in their order. -/
theorem Tree.agreesButOrder_setAttributes {t : Tree} (hn : t.node? d = some n) {a a' : AttributeSet}
    (h : ∀ name, a.find? name = a'.find? name) :
    (t.setAttributes d a).AgreesButOrder (t.setAttributes d a') d where
  shape := fun j => (sameShape_setAttributes t d a j).trans (sameShape_setAttributes t d a' j).symm
  others := fun j hj => by rw [node?_setAttributes_of_ne hj.symm, node?_setAttributes_of_ne hj.symm]
  values := fun name => by
    rw [attribute?, attribute?, node?_setAttributes_self hn, node?_setAttributes_self hn, Option.bind_some,
      Option.bind_some, h]

namespace Session

/-! ## Two calls -/

variable {s₁ s₂ : Session} {name₁ name₂ : String} {retry retry₁ retry₂ : Option RetryToken}

/-- What calls under one path leave of the directory there. -/
theorem Completes.tree_at (h : s.Completes calls s') (hs : s.Reachable) (hd : s.tree.lookup path = .ok (some d))
    (hn : s.tree.node? d = some n) (hpath : ∀ x ∈ calls, x.path = path) :
    s'.tree = s.tree.setAttributes d (PolicyCall.leaveOn calls n).attributes :=
  h.tree hs (fun x hx => by rw [hpath x hx]; exact hd) hn

/-- **Of two policies the second stays.** -/
theorem tree_of_assign_assign (hs : s.Reachable) (hd : s.tree.lookup path = .ok (some d))
    (h₁ : s.Completes [.assign path name₁ retry₁, .assign path name₂ retry₂] s₁)
    (h₂ : s.Completes [.assign path name₂ retry] s₂) : s₁.tree = s₂.tree := by
  obtain ⟨n, hn⟩ := (hs.wellFormed.tree.lookup_eq_some_iff.1 hd).1
  have hput : (n.attributes.put (PolicyName.toAttribute name₁)).put (PolicyName.toAttribute name₂) =
      n.attributes.put (PolicyName.toAttribute name₂) := AttributeSet.put_put n.attributes rfl
  rw [h₁.tree_at hs hd hn (by simp [PolicyCall.path]), h₂.tree_at hs hd hn (by simp [PolicyCall.path])]
  exact congrArg _ hput

/-- **A policy that is given and taken away again is forgotten.** -/
theorem tree_of_assign_unassign (hs : s.Reachable) (hd : s.tree.lookup path = .ok (some d))
    (h₁ : s.Completes [.assign path name retry₁, .unassign path retry₂] s₁)
    (h₂ : s.Completes [.unassign path retry] s₂) :
    s₁.tree = s₂.tree ∧ (s.tree.attribute? d PolicyName.key = none → s₁.tree = s.tree) := by
  obtain ⟨n, hn⟩ := (hs.wellFormed.tree.lookup_eq_some_iff.1 hd).1
  have herase : (n.attributes.put (PolicyName.toAttribute name)).erase PolicyName.key =
      n.attributes.erase PolicyName.key := AttributeSet.erase_put n.attributes rfl
  have htree₂ : s₂.tree = s.tree.setAttributes d (n.attributes.erase PolicyName.key) :=
    h₂.tree_at hs hd hn (by simp [PolicyCall.path])
  have hsame : s₁.tree = s₂.tree := by
    rw [h₁.tree_at hs hd hn (by simp [PolicyCall.path]), htree₂]
    exact congrArg _ herase
  refine ⟨hsame, fun hnone => ?_⟩
  rw [Tree.attribute?, hn, Option.bind_some] at hnone
  rw [hsame, htree₂, AttributeSet.erase_of_find?_none hnone, Tree.setAttributes_self hn]

/-- **A policy is taken away once.** -/
theorem unassign_again (hs : s.Reachable) (hd : s.tree.lookup path = .ok (some d))
    (h₁ : s.Completes [.unassign path retry₁] s₁) (h₂ : s₁.Completes [.unassign path retry₂] s₂) :
    s₂ = s₁ ∧ ∃ o events, (s₁.step (.unassignPolicy path retry₂)).1 =
      .traced (.ok (.unassignOutcome o)) events ∧ o.isNoop := by
  have hw := hs.wellFormed
  obtain ⟨n, hn⟩ := (hw.tree.lookup_eq_some_iff.1 hd).1
  have htree : s₁.tree = s.tree.setAttributes d (n.attributes.erase PolicyName.key) :=
    h₁.tree_at hs hd hn (by simp [PolicyCall.path])
  have hd₁ : s₁.tree.lookup path = .ok (some d) := by
    unfold Tree.lookup at hd ⊢
    rw [htree, (Tree.sameShape_setAttributes s.tree d _).chain, hd]
  cases h₂ with
  | cons hok hrest =>
    cases hrest
    obtain ⟨c, m, ha⟩ := admits_at hok hd₁
    -- the first call has left nothing to take away
    have hm : m = { n with attributes := n.attributes.erase PolicyName.key } := by
      have htarget := ha.target.2
      rw [htree, Tree.node?_setAttributes_self hn] at htarget
      exact (Option.some.inj htarget).symm
    have hnone : m.attributes.find? PolicyName.key = none := by
      rw [hm, (hw.tree.distinct hn).find?_erase, if_pos rfl]
    obtain ⟨o, events, hstep, hnoop⟩ := ha.step_unassign_of_none hnone
    exact ⟨by rw [PolicyCall.step, hstep], o, events, by rw [hstep], hnoop⟩

/-- **A policy that is given after another was taken away stands at the end.** -/
theorem tree_of_unassign_assign (hs : s.Reachable) (hd : s.tree.lookup path = .ok (some d))
    (h₁ : s.Completes [.unassign path retry₁, .assign path name retry₂] s₁)
    (h₂ : s.Completes [.assign path name retry] s₂) :
    s₁.tree.AgreesButOrder s₂.tree d ∧
      (s.tree.attribute? d PolicyName.key = none → s₁.tree = s₂.tree) ∧
      ∀ n before b after, s.tree.node? d = some n → n.attributes.toList = before ++ b :: after →
        b.name = PolicyName.key →
          s₁.tree.node? d =
            some { n with attributes := ⟨before ++ after ++ [PolicyName.toAttribute name]⟩ } ∧
          s₂.tree.node? d =
            some { n with attributes := ⟨before ++ PolicyName.toAttribute name :: after⟩ } ∧
          (s₁.tree = s₂.tree ↔ after = []) := by
  obtain ⟨n, hn⟩ := (hs.wellFormed.tree.lookup_eq_some_iff.1 hd).1
  have hdistinct := hs.wellFormed.tree.distinct hn
  have htree₁ : s₁.tree = s.tree.setAttributes d
      ((n.attributes.erase PolicyName.key).put (PolicyName.toAttribute name)) :=
    h₁.tree_at hs hd hn (by simp [PolicyCall.path])
  have htree₂ : s₂.tree = s.tree.setAttributes d (n.attributes.put (PolicyName.toAttribute name)) :=
    h₂.tree_at hs hd hn (by simp [PolicyCall.path])
  refine ⟨?_, fun hnone => ?_, fun m before b after hm hlist hb => ?_⟩
  · rw [htree₁, htree₂]
    exact Tree.agreesButOrder_setAttributes hn (hdistinct.find?_put_erase (PolicyName.toAttribute name))
  · rw [Tree.attribute?, hn, Option.bind_some] at hnone
    rw [htree₁, htree₂, AttributeSet.erase_of_find?_none hnone]
  · obtain rfl : m = n := Option.some.inj (hm.symm.trans hn)
    have hkey : b.name = (PolicyName.toAttribute name).name := hb
    have hend : (m.attributes.erase PolicyName.key).put (PolicyName.toAttribute name) =
        ⟨before ++ after ++ [PolicyName.toAttribute name]⟩ := hdistinct.put_erase_of_split hlist hkey
    refine ⟨?_, ?_, ?_⟩
    · rw [htree₁, Tree.node?_setAttributes_self hn, hend]
    · rw [htree₂, Tree.node?_setAttributes_self hn, hdistinct.put_of_split hlist hkey]
    · rw [htree₁, htree₂, Tree.setAttributes_inj hn]
      exact hdistinct.put_erase_eq_put_iff hlist hkey

/-- **The last write wins, and taking a policy away forgets it.** Of two policies that a directory is given, the
tree shows the second alone. One that is given and taken away again leaves the tree as if there had been no more
than the taking away, hence as it was if there was none before. Taking away once more changes nothing at all, the
log included. A policy that is given after another was taken away comes at the end of the attributes, and not in
the place of the other; no look-up shows the difference, and there is none if the place was the last one.

Calls that succeed one by one succeed in these sequences too, if the permission checker looks at the path only. -/
theorem last_call_decides (hs : s.Reachable) (hd : s.tree.lookup path = .ok (some d)) :
    (∀ name₁ name₂ retry₁ retry₂ retry s₁ s₂,
      s.Completes [.assign path name₁ retry₁, .assign path name₂ retry₂] s₁ →
      s.Completes [.assign path name₂ retry] s₂ → s₁.tree = s₂.tree) ∧
    (∀ name retry₁ retry₂ retry s₁ s₂,
      s.Completes [.assign path name retry₁, .unassign path retry₂] s₁ →
      s.Completes [.unassign path retry] s₂ →
      s₁.tree = s₂.tree ∧ (s.tree.attribute? d PolicyName.key = none → s₁.tree = s.tree)) ∧
    (∀ retry₁ retry₂ s₁ s₂,
      s.Completes [.unassign path retry₁] s₁ → s₁.Completes [.unassign path retry₂] s₂ →
      s₂ = s₁ ∧ ∃ o events, (s₁.step (.unassignPolicy path retry₂)).1 =
        .traced (.ok (.unassignOutcome o)) events ∧ o.isNoop) ∧
    (∀ name retry₁ retry₂ retry s₁ s₂,
      s.Completes [.unassign path retry₁, .assign path name retry₂] s₁ →
      s.Completes [.assign path name retry] s₂ →
      s₁.tree.AgreesButOrder s₂.tree d ∧
      (s.tree.attribute? d PolicyName.key = none → s₁.tree = s₂.tree) ∧
      ∀ n before b after, s.tree.node? d = some n → n.attributes.toList = before ++ b :: after →
        b.name = PolicyName.key →
          s₁.tree.node? d =
            some { n with attributes := ⟨before ++ after ++ [PolicyName.toAttribute name]⟩ } ∧
          s₂.tree.node? d =
            some { n with attributes := ⟨before ++ PolicyName.toAttribute name :: after⟩ } ∧
          (s₁.tree = s₂.tree ↔ after = [])) ∧
    (s.checker.ByPath → ∀ calls, (∀ x ∈ calls, x.path = path ∧ ∃ s', s.Completes [x] s') →
      ∃ s', s.Completes calls s') := by
  refine ⟨?_, ?_, ?_, ?_, ?_⟩
  · intro _ _ _ _ _ _ _ h₁ h₂; exact tree_of_assign_assign hs hd h₁ h₂
  · intro _ _ _ _ _ _ h₁ h₂; exact tree_of_assign_unassign hs hd h₁ h₂
  · intro _ _ _ _ h₁ h₂; exact unassign_again hs hd h₁ h₂
  · intro _ _ _ _ _ _ h₁ h₂; exact tree_of_unassign_assign hs hd h₁ h₂
  · intro hchecker calls heach
    have hlookup : ∀ x ∈ calls, s.tree.lookup x.path = .ok (some d) := fun x hx => by
      rw [(heach x hx).1]; exact hd
    exact completes_of_each hs hchecker hlookup fun x hx => (heach x hx).2

/-- A session with two policies to choose from, and a directory whose damaged policy attribute stands between two
others. -/
def crowded : Session :=
  (damaged.run [
    .change (.putAttribute 1 ⟨"user.y", [2]⟩ .create),
    .registry (.enable "XOR-2-1-1024k")]).2

/-- A directory's policy is given twice, given and taken away, taken away twice, and taken away and given, which
moves it behind another attribute. -/
theorem last_call_decides_crowded :
    crowded.Reachable ∧ crowded.tree.lookup "/a" = .ok (some 1) ∧
      (∃ s₁ s₂, crowded.Completes [.assign "/a" "XOR-2-1-1024k" none, .assign "/a" "RS-6-3-1024k" (some ⟨7, 1⟩)] s₁ ∧
        crowded.Completes [.assign "/a" "RS-6-3-1024k" none] s₂ ∧ s₁.tree = s₂.tree) ∧
      (∃ s₁ s₂, crowded.Completes [.assign "/a" "XOR-2-1-1024k" none, .unassign "/a" none] s₁ ∧
        crowded.Completes [.unassign "/a" none] s₂ ∧ s₁.tree = s₂.tree) ∧
      (∃ s₁ s₂, crowded.Completes [.unassign "/a" none] s₁ ∧ s₁.Completes [.unassign "/a" (some ⟨7, 2⟩)] s₂ ∧
        s₂ = s₁) ∧
      ∃ s₁ s₂, crowded.Completes [.unassign "/a" none, .assign "/a" "XOR-2-1-1024k" none] s₁ ∧
        crowded.Completes [.assign "/a" "XOR-2-1-1024k" none] s₂ ∧ s₁.tree.AgreesButOrder s₂.tree 1 ∧
        s₁.tree ≠ s₂.tree := by
  have hs : crowded.Reachable := reachable_damaged.run _
  have hd : crowded.tree.lookup "/a" = .ok (some 1) := rfl
  have hchecker : crowded.checker.ByPath := Checker.byPath_allowAll
  obtain ⟨hover, hforget, honce, hmove, hall⟩ := last_call_decides hs hd
  have hgrant : crowded.grant .write (some .write) "/a" = (.ok ⟨"/a", [some 0, some 1]⟩,
      [.acquire .write, .check .write "/a", .release .write]) := rfl
  -- each call succeeds by itself, and so they succeed one after another
  have hassign : ∀ name p retry, crowded.registry.require name = .ok p →
      ∃ s', crowded.Completes [.assign "/a" name retry] s' := by
    intro name p retry hp
    have hadmits : crowded.Admits (.assign "/a" name retry) ⟨"/a", [some 0, some 1]⟩ 1 _ :=
      ⟨fun other hname => Option.some.inj hname ▸ ⟨p, hp⟩, ⟨_, hgrant⟩, ⟨rfl, rfl⟩, rfl⟩
    obtain ⟨v, events, hok⟩ := hadmits.succeeds
    exact ⟨_, .cons hok (.nil _)⟩
  have hxor : ∀ retry, ∃ s', crowded.Completes [.assign "/a" "XOR-2-1-1024k" retry] s' := fun retry =>
    hassign _ ⟨4, ⟨"xor", 2, 1⟩, systemCellSize⟩ retry (Registry.require_eq_ok_iff.2 (by decide))
  have hrs : ∀ retry, ∃ s', crowded.Completes [.assign "/a" "RS-6-3-1024k" retry] s' := fun retry =>
    hassign _ ⟨1, ⟨"rs", 6, 3⟩, systemCellSize⟩ retry (Registry.require_eq_ok_iff.2 (by decide))
  have hunassign : ∀ retry, ∃ s', crowded.Completes [.unassign "/a" retry] s' := fun retry =>
    ⟨_, .cons (v := .unassignOutcome _) rfl (.nil _)⟩
  have hpair : ∀ x y : PolicyCall, x.path = "/a" → y.path = "/a" → (∃ s', crowded.Completes [x] s') →
      (∃ s', crowded.Completes [y] s') → ∃ s', crowded.Completes [x, y] s' := by
    intro x y hx hy hokx hoky
    refine hall hchecker [x, y] fun z hz => ?_
    rcases List.mem_pair.1 hz with rfl | rfl
    · exact ⟨hx, hokx⟩
    · exact ⟨hy, hoky⟩
  obtain ⟨a₁, ha₁⟩ := hpair _ _ rfl rfl (hxor none) (hrs (some ⟨7, 1⟩))
  obtain ⟨a₂, ha₂⟩ := hrs none
  obtain ⟨b₁, hb₁⟩ := hpair _ _ rfl rfl (hxor none) (hunassign none)
  obtain ⟨b₂, hb₂⟩ := hunassign none
  obtain ⟨c₂, hc₂⟩ := hpair _ _ rfl rfl (hunassign none) (hunassign (some ⟨7, 2⟩))
  obtain ⟨d₁, hd₁⟩ := hpair _ _ rfl rfl (hunassign none) (hxor none)
  obtain ⟨d₂, hd₂⟩ := hxor none
  obtain ⟨hagrees, -, hplaces⟩ := hmove _ _ _ _ _ _ hd₁ hd₂
  have hdiffer : d₁.tree ≠ d₂.tree := by
    obtain ⟨-, -, hlast⟩ := hplaces _ [⟨"user.x", [1]⟩] ⟨PolicyName.key, []⟩ [⟨"user.y", [2]⟩] rfl rfl rfl
    exact fun heq => List.cons_ne_nil _ _ (hlast.1 heq)
  cases hc₂ with
  | cons hok hrest =>
    exact ⟨hs, hd, ⟨a₁, a₂, ha₁, ha₂, hover _ _ _ _ _ _ _ ha₁ ha₂⟩,
      ⟨b₁, b₂, hb₁, hb₂, (hforget _ _ _ _ _ _ hb₁ hb₂).1⟩,
      ⟨_, c₂, .cons hok (.nil _), hrest, (honce _ _ _ _ (.cons hok (.nil _)) hrest).1⟩,
      d₁, d₂, hd₁, hd₂, hagrees, hdiffer⟩

end Session

end PolicyTree
