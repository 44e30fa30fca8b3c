import PolicyTree.Proofs.Moves

/-!
# Replaying the audit log

* `AuditTrail.replay`: the policy attributes that some records leave at a path.
* `Replays`: a tree carries exactly what the records leave; kept by a recorded change (`Replays.record`)
  and by all changes that spare the policy attribute (`Replays.alters`).
* `log_replays`: **the audit log of a run replays to the tree**, and what a record says was taken away is
  what the record before it, at the same path, has set.
-/

namespace PolicyTree

variable {t t' : Tree} {d id : NodeId} {n : Node} {r : AuditRecord} {records : List AuditRecord}
  {path : String}

/-- What a record leaves behind at its path. -/
def AuditRecord.left (r : AuditRecord) : List Attribute :=
  match r.change with
  | .set => r.attributes
  | .removed => []

namespace AuditTrail

/-- The last record with a path. -/
def lastAt (records : List AuditRecord) (path : String) : Option AuditRecord :=
  records.reverse.find? (·.path = path)

/-- **The policy attributes that records leave at a path**: what the last record there leaves. -/
def replay (records : List AuditRecord) (path : String) : List Attribute :=
  match lastAt records path with
  | some r => r.left
  | none => []

theorem lastAt_concat (records : List AuditRecord) (r : AuditRecord) (path : String) :
    lastAt (records ++ [r]) path = if r.path = path then some r else lastAt records path := by
  unfold lastAt
  rw [List.reverse_append, List.reverse_singleton, List.singleton_append]
  by_cases h : r.path = path
  · rw [List.find?_cons_of_pos (by simpa using h), if_pos h]
  · rw [List.find?_cons_of_neg (by simpa using h), if_neg h]

theorem replay_concat (records : List AuditRecord) (r : AuditRecord) (path : String) :
    replay (records ++ [r]) path = if r.path = path then r.left else replay records path := by
  unfold replay
  rw [lastAt_concat]
  by_cases h : r.path = path
  · rw [if_pos h, if_pos h]
  · rw [if_neg h, if_neg h]

theorem replay_of_forall_ne (h : ∀ r ∈ records, r.path ≠ path) : replay records path = [] := by
  have hnone : lastAt records path = none := by
    refine List.find?_eq_none.2 fun r hr => ?_
    simpa using h r (List.mem_reverse.1 hr)
  unfold replay; rw [hnone]

/-- What is left at a path was set by the last record there. -/
theorem lastAt_of_replay {a : Attribute} (h : replay records path = [a]) :
    ∃ r, lastAt records path = some r ∧ r.change = .set ∧ r.attributes = [a] := by
  unfold replay AuditRecord.left at h
  cases hr : lastAt records path with
  | none => rw [hr] at h; cases h
  | some r =>
    rw [hr] at h
    cases hc : r.change with
    | set => simp only [hc] at h; exact ⟨r, rfl, hc, h⟩
    | removed => simp only [hc] at h; cases h

end AuditTrail

open AuditTrail (lastAt replay lastAt_of_replay replay_concat replay_of_forall_ne)

/-- A record of a removal takes away what the last record before it, at the same path, has set. -/
def AuditRecord.TakesLast (before : List AuditRecord) (r : AuditRecord) : Prop :=
  r.change = .removed →
    ∃ r', lastAt before r.path = some r' ∧ r'.change = .set ∧ r'.attributes = r.attributes

/-- **A tree carries exactly the policy attributes that the records leave.** -/
structure Replays (t : Tree) (records : List AuditRecord) : Prop where
  /-- Only nodes of the tree are recorded. -/
  onNodes : ∀ r ∈ records, ∃ id n, t.node? id = some n ∧ r.path = t.pathOf id
  own : ∀ {id n}, t.node? id = some n →
    (n.attributes.find? PolicyName.key).toList = replay records (t.pathOf id)
  single : ∀ r ∈ records, ∃ a, r.attributes = [a]
  takesLast : ∀ before r after, records = before ++ r :: after → r.TakesLast before

namespace Replays

theorem empty (t : Tree) (h : ∀ {id n}, t.node? id = some n → n.attributes.find? PolicyName.key = none) :
    Replays t [] where
  onNodes := by intro r hr; cases hr
  own := by intro id n hn; rw [h hn]; rfl
  single := by intro r hr; cases hr
  takesLast := by intro before r after he; cases before <;> cases he

/-- Recorded nodes stay, and keep their paths. -/
theorem onNodes_of_extends (h : Replays t records) (ht : t.WellFormed) (hext : t.Extends t') :
    ∀ r ∈ records, ∃ id n, t'.node? id = some n ∧ r.path = t'.pathOf id := by
  intro r hr
  obtain ⟨id, m, hm, hp⟩ := h.onNodes r hr
  obtain ⟨m', hm', -⟩ := hext hm
  exact ⟨id, m', hm', by rw [hp, hext.pathOf ht hm]⟩

/-- **A change of a node's policy and its record go together.** -/
theorem record (h : Replays t records) (ht : t.WellFormed) (hn : t.node? d = some n) {s : AttributeSet}
    (hpath : r.path = t.pathOf d) (hleft : r.left = (s.find? PolicyName.key).toList)
    (hsingle : ∃ a, r.attributes = [a]) (htakes : r.TakesLast records) :
    Replays (t.setAttributes d s) (records ++ [r]) := by
  have hext : t.Extends (t.setAttributes d s) := t.extends_setAttributes d s
  refine ⟨?_, ?_, ?_, ?_⟩
  · intro x hx
    rcases List.mem_append.1 hx with hx | hx
    · exact h.onNodes_of_extends ht hext x hx
    · rw [List.mem_singleton.1 hx]
      obtain ⟨n', hn', -⟩ := hext hn
      exact ⟨d, n', hn', by rw [hpath, hext.pathOf ht hn]⟩
  · intro id m hm
    by_cases hid : d = id
    · subst hid
      rw [Tree.node?_setAttributes_self hn] at hm; cases hm
      rw [replay_concat, hext.pathOf ht hn, if_pos hpath, hleft]
    · -- another node has another path, and its last record is the same
      rw [Tree.node?_setAttributes_of_ne hid] at hm
      have hne : r.path ≠ t.pathOf id := fun he => hid (ht.pathOf_injective hn hm (hpath.symm.trans he))
      rw [replay_concat, hext.pathOf ht hm, if_neg hne]
      exact h.own hm
  · intro x hx
    rcases List.mem_append.1 hx with hx | hx
    · exact h.single x hx
    · rw [List.mem_singleton.1 hx]; exact hsingle
  · intro before x after he
    -- the removal is the new record, or an old one with the same records before it
    rcases List.eq_nil_or_concat after with rfl | ⟨rest, last, rfl⟩
    · obtain ⟨rfl, hx⟩ := List.append_inj' he rfl
      cases hx
      exact htakes
    · rw [List.concat_eq_append, ← List.cons_append, ← List.append_assoc] at he
      obtain ⟨he, -⟩ := List.append_inj' he rfl
      exact h.takesLast before x rest he

/-- **A change that spares the policy attribute needs no record.** -/
theorem alters (h : Replays t records) (ht : t.WellFormed) (ha : t.Alters (· ≠ PolicyName.key) t') :
    Replays t' records := by
  have hext : t.Extends t' := Tree.extends_alters ha
  have ht' := ht.alters ha
  refine ⟨h.onNodes_of_extends ht hext, ?_, h.single, h.takesLast⟩
  intro id m hm
  rcases ht.find?_alters ha (fun hne => hne rfl) hm with ⟨m0, hm0, hsame⟩ | ⟨hnew, hnone⟩
  · rw [hsame, hext.pathOf ht hm0]; exact h.own hm0
  · -- a new node has no policy, and no record can name it
    have hunnamed : ∀ x ∈ records, x.path ≠ t'.pathOf id := by
      intro x hx he
      obtain ⟨j, k, hk, hp⟩ := h.onNodes x hx
      obtain ⟨k', hk', -⟩ := hext hk
      rw [hp, ← hext.pathOf ht hk] at he
      rw [ht'.pathOf_injective hk' hm he, hnew] at hk
      cases hk
    rw [hnone, replay_of_forall_ne hunnamed]
    rfl

end Replays

namespace Session

variable {s s' : Session}

/-- The log keeps records, and the tree carries what they leave. -/
structure Faithful (s : Session) : Prop where
  wellFormed : s.WellFormed
  replays : ∃ records, s.log = .keeping records ∧ Replays s.tree records

/-- **A move that spares the policy attribute, or records its change, keeps the log faithful.** -/
theorem Faithful.move (hs : s.Faithful) (h : Move (· ≠ PolicyName.key) s s') : s'.Faithful := by
  refine ⟨hs.wellFormed.move h, ?_⟩
  have ht := hs.wellFormed.tree
  obtain ⟨records, hlog, hr⟩ := hs.replays
  cases h with
  | lock lock => exact ⟨records, hlog, hr⟩
  | registry op => exact ⟨records, hlog, hr⟩
  | alter ha => exact ⟨records, hlog, hr.alters ht ha⟩
  | assign hp hc htarget hd =>
    -- the path recorded is the canonical one, and what is recorded is what is written
    refine ⟨_, by simp only [hlog]; rfl, ?_⟩
    refine hr.record ht htarget.2 (ht.path_of_target hc htarget.1) ?_ ⟨_, rfl⟩ nofun
    rw [AttributeSet.find?_put_policy]
    rfl
  | @unassign path c d n a retry hc htarget hd ha =>
    have hpath := ht.path_of_target hc htarget.1
    -- what is taken away is what the tree carried, so the last record has set it
    have hlast : replay records c.path = [a] := by rw [hpath, ← hr.own htarget.2, ha]; rfl
    refine ⟨_, by simp only [hlog]; rfl, ?_⟩
    refine hr.record ht htarget.2 hpath ?_ ⟨a, rfl⟩ fun _ => lastAt_of_replay hlast
    rw [(ht.distinct htarget.2).find?_erase, if_pos rfl]
    rfl

theorem Faithful.moves (hs : s.Faithful) (h : Moves (· ≠ PolicyName.key) s s') : s'.Faithful := by
  induction h with
  | refl => exact hs
  | tail _ hmove ih => exact ih.move hmove

theorem Faithful.start {config : Config} {lock : Lock} {checker : Checker}
    (h : Session.start config lock checker (.keeping []) = .ok s) : s.Faithful := by
  obtain ⟨hr, ht, hlog⟩ := start_ok h
  refine ⟨(Reachable.start h).wellFormed, [], hlog, .empty _ ?_⟩
  intro id n hn
  rw [ht] at hn
  exact (Tree.node?_empty hn).2 ▸ rfl

/-- **The audit log of a run replays to the tree**, if the policy attribute is written by the two calls
only: a node carries the attribute that the last record with its path has set, and none if that record
is a removal or there is none. Each record is about one attribute, and a removal takes what the last
record before it, at the same path, has set. -/
theorem log_replays {config : Config} {lock : Lock} {checker : Checker} {steps : List Step}
    (h : Session.start config lock checker (.keeping []) = .ok s)
    (hsteps : ∀ c ∈ Step.changesIn steps, c.writes? ≠ some PolicyName.key) :
    ∃ records, (s.run steps).2.log = .keeping records ∧
      (∀ id n, (s.run steps).2.tree.node? id = some n →
        n.attributes.toList.filter (·.name = PolicyName.key) =
          replay records ((s.run steps).2.tree.pathOf id)) ∧
      (∀ r ∈ records, ∃ a, r.attributes = [a]) ∧
      ∀ before r after, records = before ++ r :: after → r.change = .removed →
        ∃ r', lastAt before r.path = some r' ∧ r'.change = .set ∧ r'.attributes = r.attributes := by
  have hmoves : Moves (· ≠ PolicyName.key) s (s.run steps).2 :=
    moves_run s steps fun c hc name hw he => hsteps c hc (he ▸ hw)
  have hfaithful := (Faithful.start h).moves hmoves
  obtain ⟨records, hlog, hr⟩ := hfaithful.replays
  refine ⟨records, hlog, ?_, hr.single, hr.takesLast⟩
  intro id n hn
  rw [(hfaithful.wellFormed.tree.distinct hn).filter_eq]
  exact hr.own hn

/-- A policy is given, given again, and taken away, among other steps. -/
theorem log_replays_removal :
    let a : Attribute := PolicyName.toAttribute "RS-6-3-1024k"
    let steps : List Step := [
      .change (.makeDirectories "/a/b"),
      .assignPolicy "/a" "RS-6-3-1024k" none,
      .withLock .write [.unassignPolicy "/a" none, .change (.putAttribute 1 ⟨"user.x", [1]⟩ .create)],
      .assignPolicy "/a/b/.." "RS-6-3-1024k" (some ⟨7, 1⟩),
      .change (.putAttribute 1 ⟨"user.x", [1]⟩ .create),
      .unassignPolicy "/a/b" none,
      .unassignPolicy "//a" none,
      .assignPolicy "/c" "RS-6-3-1024k" none]
    let records : List AuditRecord := [
      ⟨.set, "/a", [a], none⟩, ⟨.set, "/a", [a], some ⟨7, 1⟩⟩, ⟨.removed, "/a", [a], none⟩]
    (∀ c ∈ Step.changesIn steps, c.writes? ≠ some PolicyName.key) ∧
      (initial.run steps).2.log = .keeping records ∧
      (∀ id n, (initial.run steps).2.tree.node? id = some n →
        n.attributes.toList.filter (·.name = PolicyName.key) =
          replay records ((initial.run steps).2.tree.pathOf id)) ∧
      ∃ r', lastAt (records.take 2) "/a" = some r' ∧ r'.change = .set ∧ r'.attributes = [a] := by
  intro a steps records
  have hsteps : ∀ c ∈ Step.changesIn steps, c.writes? ≠ some PolicyName.key := by decide
  have hlog : (initial.run steps).2.log = .keeping records := rfl
  obtain ⟨records', hlog', hnodes, -, htakes⟩ := log_replays start_initial hsteps
  cases hlog.symm.trans hlog'
  exact ⟨hsteps, hlog, hnodes, htakes (records.take 2) ⟨.removed, "/a", [a], none⟩ [] rfl rfl⟩

end Session

end PolicyTree
