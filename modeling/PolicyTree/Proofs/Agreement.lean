import PolicyTree.Proofs.Creation
import PolicyTree.Proofs.Namespace
import PolicyTree.Proofs.Outcomes

/-!
# Three questions about one path

The policy in force, whether there is one, and the status that is shown are asked for by different calls. They
differ in what they ask for besides: the first needs a permission and a target, the second needs neither, and the
third needs a target and does not fail for a damaged policy attribute.

* `Tree.Reaches`: some names of a path lead to a node, and no more of them do. Every path has such names
  (`WellFormed.exists_reaches`), and **they have the policy in force that the whole path has**
  (`inForce_of_reaches`).
* `isCovered_keeps`, `status_answer`: whether there is a policy is asked without permission, and the status without
  a call.
* `questions_agree`: **the three answers agree, but for what they ask for besides.**
-/

namespace PolicyTree

variable {s : Session} {t : Tree} {r : Registry} {c c' : Chain} {path : String} {names : List String} {k : Nat}
  {lock : Lock}

namespace Tree

/-! ## The first names of a path -/

/-- **The first `k` names of a path lead to a node, and no more of them do.** -/
def Reaches (t : Tree) (names : List String) (k : Nat) : Prop :=
  k ≤ names.length ∧ (∃ d, t.lookup (Path.join (names.take k)) = .ok (some d)) ∧
    ∀ j, k < j → j ≤ names.length → t.lookup (Path.join (names.take j)) = .ok none

theorem WellFormed.exists_reaches (ht : t.WellFormed) (hp : Path.normalize path = .ok names) :
    ∃ k, t.Reaches names k := by
  obtain ⟨n, hn, -⟩ := ht.rooted
  obtain ⟨above, d, below, htrail, -, hbelow⟩ := ht.exists_deepest_trail names root (by rw [hn]; rfl)
  have hlength : above.length ≤ names.length := by
    have hsum := congrArg List.length htrail
    rw [length_trail, List.length_append, List.length_cons] at hsum
    omega
  refine ⟨above.length, hlength, ⟨d, ?_⟩, fun j hj hle => ?_⟩
  · rw [lookup_take hp t hlength, htrail, List.getElem?_append_right (Nat.le_refl _), Nat.sub_self]
    rfl
  · rw [lookup_take hp t hle]
    cases he : (t.trail (some root) names)[j]?.join with
    | none => rfl
    | some d' =>
      -- a trail leads to nodes only, and none stands after the deepest
      have hj' : (t.trail (some root) names)[j]? = some (some d') := Option.join_eq_some_iff.1 he
      obtain ⟨m, hm⟩ := ht.node?_of_mem_trail names root ⟨n, hn⟩ (List.mem_of_getElem? hj')
      obtain ⟨i, rfl⟩ := Nat.exists_eq_add_of_lt hj
      rw [htrail, List.getElem?_append_right (by omega), show above.length + i + 1 - above.length = i + 1 by omega,
        List.getElem?_cons_succ] at hj'
      have hnone := hbelow _ (List.mem_of_getElem? hj')
      rw [Option.bind_some, hm] at hnone; cases hnone

/-- **Past the names that lead to a node nothing has a say.** -/
theorem Reaches.silent (hk : t.Reaches names k) (hp : Path.normalize path = .ok names) :
    ∀ e ∈ (t.trail (some root) names).drop (k + 1), t.Silent e := by
  intro e he n hn
  obtain ⟨i, hi⟩ := List.mem_iff_getElem?.1 he
  rw [List.getElem?_drop] at hi
  have hlt : k + 1 + i < names.length + 1 := by
    rw [← length_trail t names (some root)]; exact (List.getElem?_eq_some_iff.1 hi).1
  have hmissing := hk.2.2 (k + 1 + i) (by omega) (by omega)
  rw [lookup_take hp t (by omega), hi, Option.join_some] at hmissing
  cases hmissing
  cases hn

/-- **The names that lead to a node have the policy in force that the whole path has.** -/
theorem inForce_of_reaches (hp : Path.normalize path = .ok names) (hk : t.Reaches names k)
    (hc : t.chain path = .ok c) (hc' : t.chain (Path.join (names.take k)) = .ok c') (r : Registry) :
    t.inForce r c' = t.inForce r c := by
  obtain ⟨names', hp', rfl⟩ := chain_eq_ok_iff.1 hc
  cases hp.symm.trans hp'
  cases hc'.symm.trans (chain_take hp t k)
  have hsplit : t.trail (some root) names =
      (t.trail (some root) names).take (k + 1) ++ (t.trail (some root) names).drop (k + 1) :=
    (List.take_append_drop _ _).symm
  exact (inForce_of_silent (c := ⟨Path.join names, _⟩) hsplit (hk.silent hp)).symm

end Tree

namespace Session

/-! ## The three questions -/

/-- **Whether there is a policy is asked without permission**, so it does not matter who would be asked. -/
theorem isCovered_keeps (s : Session) (path : String) (checker : Checker) (config : Config) :
    ({ s with checker, config }.perform (Call.isCovered path)).result = (s.perform (Call.isCovered path)).result := by
  rw [perform_isCovered, perform_isCovered]
  rfl

/-- The status at a path, which nobody is asked for either. -/
theorem status_answer (hl : s.lock.acquire .read = .ok lock) (hc : s.tree.chain path = .ok c) :
    (s.step (.query (.status path))).1 = .plain ((s.tree.status s.registry c).map .status) := by
  rw [step, plain, perform_query, hl]
  simp only [TreeQuery.answer, hc]
  change Answer.plain ((s.tree.status s.registry c).bind fun st => .ok (.status st)) = _
  cases s.tree.status s.registry c <;> rfl

/-- The policy in force at a path that may be read. -/
theorem policyInForce_result (hl : s.lock.acquire .read = .ok lock) (hc : s.tree.chain path = .ok c)
    (haccess : s.accessFault .read path = none) :
    (s.perform (Call.policyInForce path)).result =
      if c.last?.isNone then .error (.targetMissing c.path) else s.tree.inForce s.registry c := by
  obtain ⟨names, hp, -⟩ := Tree.chain_eq_ok_iff.1 hc
  have hlock : s.lockFault .read = none := by unfold lockFault; rw [hl]
  have hpath : pathFault path = none := by unfold pathFault; rw [hp]; rfl
  have hsound : firstFault (s.grantFaults .read (some .read) path) = none := by
    rw [grantFaults, firstFault_cons, firstFault_cons, hlock, hpath, Option.toList_some, List.map_singleton,
      firstFault_singleton, haccess]
    rfl
  obtain ⟨c', seen, hc', hg⟩ := grant_of_sound hsound
  cases hc.symm.trans hc'
  rw [perform_policyInForce_of_granted hg]

/-- **The answers about a node agree**: all three show one policy, or none; or damage hides it, for which two of
them fail and the third shows none. -/
inductive Agrees (s : Session) (path : String) : Prop
  | readable (r : Option Policy) (st : Status) (hforce : (s.perform (Call.policyInForce path)).result = .ok r)
      (hcovered : (s.perform (Call.isCovered path)).result = .ok r.isSome)
      (hstatus : (s.step (.query (.status path))).1 = .plain (.ok (.status st))) (hshown : st.policy = r)
  | damaged (e : Error) (st : Status) (hkind : e.kind = .corruptAttribute)
      (hforce : (s.perform (Call.policyInForce path)).result = .error e)
      (hcovered : (s.perform (Call.isCovered path)).result = .error e)
      (hstatus : (s.step (.query (.status path))).1 = .plain (.ok (.status st))) (hshown : st.policy = none)

/-- About a node that may be read the answers agree. -/
theorem agrees_of_lookup (hs : s.WellFormed) (hl : s.lock.acquire .read = .ok lock)
    (hc : s.tree.chain path = .ok c) {d : NodeId} (hd : s.tree.lookup path = .ok (some d))
    (haccess : s.accessFault .read path = none) : s.Agrees path := by
  have hlast : c.last? = some d := Tree.last?_of_lookup hd hc
  obtain ⟨n, hn⟩ := (hs.tree.lookup_eq_some_iff.1 hd).1
  have hforce := policyInForce_result hl hc haccess
  have hcovered := isCovered_result hl hc
  have hstatus := status_answer hl hc
  rw [hlast] at hforce
  rw [Tree.status_of_targets ⟨hlast, hn⟩] at hstatus
  cases hr : s.tree.inForce s.registry c with
  | ok r =>
    rw [hr] at hforce hcovered
    exact .readable r _ hforce hcovered hstatus (by rw [Tree.statusAt, hr]; rfl)
  | error e =>
    rw [hr] at hforce hcovered
    obtain ⟨_, _, _, _, _, _, hkind⟩ := Tree.inForce_error hr
    exact .damaged e _ hkind hforce hcovered hstatus (by rw [Tree.statusAt, hr]; rfl)

/-- Where there is no node, the two answers that need one fail alike. -/
theorem missing_of_lookup (hl : s.lock.acquire .read = .ok lock) (hp : Path.normalize path = .ok names)
    (hd : s.tree.lookup path = .ok none) (haccess : s.accessFault .read path = none) :
    ∃ e, e.kind = .notFound ∧ e.report.context = .path (Path.join names) ∧
      (s.perform (Call.policyInForce path)).result = .error e ∧
      (s.step (.query (.status path))).1 = .plain (.error e) := by
  have hc : s.tree.chain path = .ok ⟨Path.join names, s.tree.trail (some Tree.root) names⟩ :=
    Tree.chain_eq_ok_iff.2 ⟨names, hp, rfl⟩
  have hlast := Tree.last?_of_lookup hd hc
  have hforce := policyInForce_result hl hc haccess
  have hstatus := status_answer hl hc
  rw [hlast] at hforce
  rw [Tree.status, hlast] at hstatus
  exact ⟨.targetMissing (Path.join names), rfl, rfl, hforce, hstatus⟩

/-- **Three questions about one path**, in every session that steps lead to.

Nobody is asked whether there is a policy, so the answer does not depend on the permission checker. Where the path may
be read, it agrees with the policy in force and with the status shown, if there is a node at all. If there is
none, the other two fail, and this one is what it is for the longest part of the path that leads to a node, damage
included. -/
theorem questions_agree (hs : s.Reachable) (hp : Path.normalize path = .ok names)
    (hl : s.lock.acquire .read = .ok lock) :
    (∀ checker config, ({ s with checker, config }.perform (Call.isCovered path)).result =
        (s.perform (Call.isCovered path)).result) ∧
      (s.accessFault .read path = none → ∀ d, s.tree.lookup path = .ok (some d) → s.Agrees path) ∧
      (s.accessFault .read path = none → s.tree.lookup path = .ok none →
        ∃ e, e.kind = .notFound ∧ e.report.context = .path (Path.join names) ∧
          (s.perform (Call.policyInForce path)).result = .error e ∧
          (s.step (.query (.status path))).1 = .plain (.error e)) ∧
      (∃ k, s.tree.Reaches names k) ∧
      ∀ k, s.tree.Reaches names k → (s.perform (Call.isCovered path)).result =
        (s.perform (Call.isCovered (Path.join (names.take k)))).result := by
  have hw := hs.wellFormed
  have hc : s.tree.chain path = .ok ⟨Path.join names, s.tree.trail (some Tree.root) names⟩ :=
    Tree.chain_eq_ok_iff.2 ⟨names, hp, rfl⟩
  refine ⟨s.isCovered_keeps path, fun haccess d hd => agrees_of_lookup hw hl hc hd haccess,
    fun haccess hd => missing_of_lookup hl hp hd haccess, hw.tree.exists_reaches hp, fun k hk => ?_⟩
  have hprefix := Tree.chain_take hp s.tree k
  rw [isCovered_result hl hc, isCovered_result hl hprefix, Tree.inForce_of_reaches hp hk hc hprefix]

/-- Below a damaged attribute the questions fail alike, also for what is not there. A path through a file has the
policy of the file. -/
theorem questions_agree_damaged :
    damaged.Reachable ∧ furnished.Reachable ∧
      Path.normalize "/a//b" = .ok ["a", "b"] ∧ damaged.Agrees "/a//b" ∧
      Path.normalize "/a/b/../c/d" = .ok ["a", "c", "d"] ∧ damaged.tree.Reaches ["a", "c", "d"] 1 ∧
      (damaged.perform (Call.isCovered "/a/b/../c/d")).result = (damaged.perform (Call.isCovered "/a")).result ∧
      Path.normalize "/b/a/x" = .ok ["b", "a", "x"] ∧ furnished.tree.Reaches ["b", "a", "x"] 2 ∧
      (∃ e, e.kind = .notFound ∧ e.report.context = .path "/b/a/x" ∧
        (furnished.perform (Call.policyInForce "/b/a/x")).result = .error e) ∧
      (furnished.perform (Call.isCovered "/b/a/x")).result = .ok true := by
  have hbelow : Path.normalize "/a//b" = .ok ["a", "b"] := rfl
  have hmissing : Path.normalize "/a/b/../c/d" = .ok ["a", "c", "d"] := rfl
  have hthrough : Path.normalize "/b/a/x" = .ok ["b", "a", "x"] := rfl
  have hlock : damaged.lock.acquire .read = .ok (.shared 1) := rfl
  have hlock' : furnished.lock.acquire .read = .ok (.shared 1) := rfl
  have hupper : damaged.tree.Reaches ["a", "c", "d"] 1 := by
    refine ⟨by decide, ⟨1, rfl⟩, fun j hj hle => ?_⟩
    obtain rfl | rfl : j = 2 ∨ j = 3 := by have : j ≤ 3 := hle; omega
    · rfl
    · rfl
  have hfile : furnished.tree.Reaches ["b", "a", "x"] 2 := by
    refine ⟨by decide, ⟨3, rfl⟩, fun j hj hle => ?_⟩
    obtain rfl : j = 3 := Nat.le_antisymm hle hj
    rfl
  obtain ⟨-, hagrees, -⟩ := questions_agree reachable_damaged hbelow hlock
  obtain ⟨-, -, -, -, hinherits⟩ := questions_agree reachable_damaged hmissing hlock
  obtain ⟨-, -, hfails, -, hcovered⟩ := questions_agree reachable_furnished hthrough hlock'
  obtain ⟨e, hkind, hcontext, hforce, -⟩ := hfails rfl rfl
  exact ⟨reachable_damaged, reachable_furnished, hbelow, hagrees rfl 2 rfl, hmissing, hupper, hinherits 1 hupper,
    hthrough, hfile, ⟨e, hkind, hcontext, hforce⟩, (hcovered 2 hfile).trans rfl⟩

end Session

end PolicyTree
