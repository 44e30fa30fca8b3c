import PolicyTree.Proofs.Codec
import PolicyTree.Proofs.Lineage

/-!
# Who decides

Along a chain the entry nearest to the target that is not silent decides.

* `Registry.ofFile?`: the policy of a file, by the number that it was made with.
* `Tree.Silent`: an entry has no say: there is no node, or a directory without a policy of its own.
* `Tree.Governs`: a node is on a chain, and all entries after it are silent.
* `inForce_setAttributes_of_not_governs`: **attributes of a node that does not govern a chain do not
  matter to it.**
* `WellFormed.inForce_setAttributes_of_governs`, `WellFormed.inForce_setAttributes_of_silent`: what is in
  force on the chains that a node governs, if it has something to say afterwards, and if it has not.
* `Tree.decider?`: the node that decides on a chain. Which node it is does not depend on the policies, and
  **what is in force is what it says** (`inForce_eq_decider`).
-/

namespace PolicyTree

variable {t t' : Tree} {r : Registry} {c : Chain} {d : NodeId} {n : Node} {p : Policy} {path : String}
  {e : Option NodeId} {above below : List (Option NodeId)}

theorem Node.verdict?_eq_none_iff :
    n.verdict? r = none ↔ n.isDirectory ∧ n.attributes.find? PolicyName.key = none := by
  unfold Node.verdict? Node.isDirectory
  cases hk : n.kind with
  | directory children => simp [NodeKind.type]
  | file raw => simp [NodeKind.type]
  | link target => simp [NodeKind.type]

theorem Node.verdict?_of_directory (hd : n.isDirectory) :
    n.verdict? r = (n.attributes.find? PolicyName.key).map fun a =>
      (PolicyName.ofAttribute a).map r.enabledNamed? := by
  obtain ⟨children, hk⟩ := Node.kind_of_directory hd
  unfold Node.verdict?
  rw [hk]

/-- **The policy of a file** that was made with a number: the one known under it, and none under a negative
number. -/
def Registry.ofFile? (r : Registry) (raw : Int8) : Option Policy :=
  if raw < 0 then none else r.byId? raw.toUInt8

theorem Node.verdict?_of_file {raw : Int8} (hk : n.kind = .file raw) (r : Registry) :
    n.verdict? r = some (.ok (r.ofFile? raw)) := by
  unfold Node.verdict? Node.policyId? Node.rawPolicyId? carriedId Registry.ofFile?
  simp only [hk, Option.bind_some]
  split <;> rfl

theorem Node.verdict?_of_link (hk : n.kind.type = .link) : n.verdict? r = some (.ok none) := by
  unfold Node.verdict?
  cases hn : n.kind with
  | directory children => rw [hn] at hk; cases hk
  | file raw => rw [hn] at hk; cases hk
  | link target => rfl

namespace Tree

/-- **An entry of a chain has no say**: there is no node, or a directory without a policy of its own. -/
def Silent (t : Tree) (e : Option NodeId) : Prop :=
  ∀ n, e.bind t.node? = some n → n.isDirectory ∧ n.attributes.find? PolicyName.key = none

/-- **A node is on a chain, and all entries after it are silent.** -/
def Governs (t : Tree) (d : NodeId) (c : Chain) : Prop :=
  ∃ above below, c.entries = above ++ some d :: below ∧ ∀ e ∈ below, t.Silent e

theorem verdict?_eq_none_iff : t.verdict? r e = none ↔ t.Silent e := by
  unfold verdict? Silent
  rw [Option.bind_eq_none_iff]
  exact forall₂_congr fun n _ => Node.verdict?_eq_none_iff

theorem findSome?_of_silent (h : ∀ e ∈ below, t.Silent e) :
    below.reverse.findSome? (t.verdict? r) = none :=
  List.findSome?_eq_none_iff.2 fun e he => verdict?_eq_none_iff.2 (h e (List.mem_reverse.1 he))

/-! ## Nearest first -/

theorem inForce_append (hc : c.entries = above ++ below) :
    t.inForce r c = ((below.reverse.findSome? (t.verdict? r)).or
      (above.reverse.findSome? (t.verdict? r))).getD (.ok none) := by
  unfold inForce
  rw [hc, List.reverse_append, List.findSome?_append]

/-- Silent entries at the end can be left out. -/
theorem inForce_of_silent (hc : c.entries = above ++ below) (hbelow : ∀ e ∈ below, t.Silent e) :
    t.inForce r c = (above.reverse.findSome? (t.verdict? r)).getD (.ok none) := by
  rw [inForce_append hc, findSome?_of_silent hbelow, Option.none_or]

/-- **The nearest entry that says something decides.** -/
theorem inForce_of_verdict {v : Except Error (Option Policy)} (hc : c.entries = above ++ e :: below)
    (hbelow : ∀ e ∈ below, t.Silent e) (he : t.verdict? r e = some v) : t.inForce r c = v := by
  have hc' : c.entries = (above ++ [e]) ++ below := by rw [hc, List.append_assoc]; rfl
  rw [inForce_of_silent hc' hbelow, List.reverse_append, List.reverse_singleton, List.singleton_append,
    List.findSome?_cons, he]
  rfl

theorem findSome?_congr {l : List (Option NodeId)} (h : ∀ e ∈ l, t'.verdict? r e = t.verdict? r e) :
    l.reverse.findSome? (t'.verdict? r) = l.reverse.findSome? (t.verdict? r) := by
  induction l with
  | nil => rfl
  | cons e l ih =>
    rw [List.reverse_cons, List.findSome?_append, List.findSome?_append,
      ih fun e he => h e (List.mem_cons_of_mem _ he)]
    simp only [List.findSome?_cons, List.findSome?_nil, h e List.mem_cons_self]

/-- **What stands before an entry that says something does not matter.** -/
theorem inForce_of_spoken (hc : c.entries = above ++ below) (hs : ∃ e ∈ below, ¬t.Silent e)
    (h : ∀ e ∈ below, t'.verdict? r e = t.verdict? r e) : t'.inForce r c = t.inForce r c := by
  obtain ⟨e, he, hsaid⟩ := hs
  have hsome : below.reverse.findSome? (t.verdict? r) ≠ none := by
    intro hnone
    have := List.findSome?_eq_none_iff.1 hnone e (List.mem_reverse.2 he)
    exact hsaid (verdict?_eq_none_iff.1 this)
  obtain ⟨v, hv⟩ := Option.ne_none_iff_exists'.1 hsome
  rw [inForce_append hc, inForce_append hc, findSome?_congr h, hv, Option.some_or, Option.some_or]

/-! ## The deciding node -/

end Tree

/-- A node has something to say: it is no directory, or one with a policy of its own. -/
def Node.speaks (n : Node) : Bool := !n.isDirectory || (n.attributes.find? PolicyName.key).isSome

theorem Node.verdict?_eq_none_iff_not_speaks : n.verdict? r = none ↔ n.speaks = false := by
  rw [verdict?_eq_none_iff, speaks, Bool.or_eq_false_iff, Bool.not_eq_false', Option.isSome_eq_false_iff,
    Option.isNone_iff_eq_none]

namespace Tree

/-- **The node that decides on a chain**: of those that have something to say, the nearest to the target. -/
def decider? (t : Tree) (c : Chain) : Option Node :=
  c.entries.reverse.findSome? fun e => (e.bind t.node?).filter Node.speaks

/-- A node that has nothing to say can be left out. -/
theorem verdict?_eq_filter (t : Tree) (r : Registry) (e : Option NodeId) :
    t.verdict? r e = ((e.bind t.node?).filter Node.speaks).bind (·.verdict? r) := by
  unfold verdict?
  cases e.bind t.node? with
  | none => rfl
  | some n =>
    cases hs : n.speaks with
    | true => rw [Option.filter_some_pos hs]
    | false =>
      have hnone : n.verdict? r = none := Node.verdict?_eq_none_iff_not_speaks.2 hs
      rw [Option.filter_some_neg (by simp [hs]), Option.bind_some, hnone, Option.bind_none]

/-- **What is in force along a chain is what its decider says.** -/
theorem inForce_eq_decider (t : Tree) (r : Registry) (c : Chain) :
    t.inForce r c = ((t.decider? c).bind (·.verdict? r)).getD (.ok none) := by
  have key : ∀ l : List (Option NodeId), l.findSome? (t.verdict? r) =
      (l.findSome? fun e => (e.bind t.node?).filter Node.speaks).bind (·.verdict? r) := by
    intro l
    induction l with
    | nil => rfl
    | cons e l ih =>
      rw [List.findSome?_cons, List.findSome?_cons, verdict?_eq_filter]
      cases hf : (e.bind t.node?).filter Node.speaks with
      | none => exact ih
      | some n =>
        -- who speaks has a verdict, and the walk ends
        have hs : n.speaks = true := (Option.filter_eq_some_iff.1 hf).2
        cases hv : n.verdict? r with
        | some v => simp [hv]
        | none => rw [Node.verdict?_eq_none_iff_not_speaks.1 hv] at hs; cases hs
  unfold inForce decider?
  rw [key]

theorem speaks_of_decider (h : t.decider? c = some n) : n.speaks := by
  obtain ⟨e, -, he⟩ := List.exists_of_findSome?_eq_some h
  exact (Option.filter_eq_some_iff.1 he).2

/-- Where nobody decides, nothing is in force. -/
theorem inForce_of_no_decider (h : t.decider? c = none) (r : Registry) : t.inForce r c = .ok none := by
  rw [inForce_eq_decider, h]; rfl

theorem inForce_of_link (h : t.decider? c = some n) (hk : n.kind.type = .link) (r : Registry) :
    t.inForce r c = .ok none := by
  rw [inForce_eq_decider, h, Option.bind_some, Node.verdict?_of_link hk]; rfl

theorem inForce_of_file_decider {raw : Int8} (h : t.decider? c = some n) (hk : n.kind = .file raw)
    (r : Registry) : t.inForce r c = .ok (r.ofFile? raw) := by
  rw [inForce_eq_decider, h, Option.bind_some, Node.verdict?_of_file hk]; rfl

/-- A directory that decides has a policy of its own, and its name decides. -/
theorem inForce_of_directory_decider (h : t.decider? c = some n) (hd : n.isDirectory) :
    ∃ a, n.attributes.find? PolicyName.key = some a ∧
      ∀ r : Registry, t.inForce r c = (PolicyName.decode a.value).map r.enabledNamed? := by
  have hs := speaks_of_decider h
  rw [Node.speaks, hd, Bool.not_true, Bool.false_or] at hs
  obtain ⟨a, ha⟩ := Option.isSome_iff_exists.1 hs
  have hname : a.name = PolicyName.key := AttributeSet.name_of_find? ha
  refine ⟨a, ha, fun r => ?_⟩
  rw [inForce_eq_decider, h, Option.bind_some, Node.verdict?_of_directory hd, ha, Option.map_some,
    Option.getD_some, PolicyName.ofAttribute, if_pos hname]

/-! ## Other attributes on one node -/

theorem verdict?_setAttributes_of_ne (he : e ≠ some d) (s : AttributeSet) :
    (t.setAttributes d s).verdict? r e = t.verdict? r e := by
  unfold verdict?
  cases e with
  | none => rfl
  | some j =>
    have hne : d ≠ j := fun h => he (h ▸ rfl)
    rw [Option.bind_some, Option.bind_some, node?_setAttributes_of_ne hne]

theorem silent_setAttributes_of_ne (he : e ≠ some d) (s : AttributeSet) (h : t.Silent e) :
    (t.setAttributes d s).Silent e := by
  intro n hn
  cases e with
  | none => cases hn
  | some j =>
    have hne : d ≠ j := fun h => he (h ▸ rfl)
    rw [Option.bind_some, node?_setAttributes_of_ne hne] at hn
    exact h n hn

/-- A member of a list has a last place in it. -/
theorem exists_last_of_mem {l : List (Option NodeId)} (h : e ∈ l) :
    ∃ above below, l = above ++ e :: below ∧ e ∉ below := by
  obtain ⟨as, bs, hl, hnot⟩ := List.eq_append_cons_of_mem (List.mem_reverse.2 h)
  refine ⟨bs.reverse, as.reverse, ?_, fun hm => hnot (List.mem_reverse.1 hm)⟩
  rw [← List.reverse_reverse l, hl, List.reverse_append, List.reverse_cons, List.append_assoc,
    List.singleton_append]

/-- **Attributes of a node that does not govern a chain do not matter to it.** -/
theorem inForce_setAttributes_of_not_governs (h : ¬t.Governs d c) (s : AttributeSet) :
    (t.setAttributes d s).inForce r c = t.inForce r c := by
  by_cases hm : some d ∈ c.entries
  · -- something after its last place speaks, and is as it was
    obtain ⟨above, below, hc, hnot⟩ := exists_last_of_mem hm
    have hc' : c.entries = (above ++ [some d]) ++ below := by rw [hc, List.append_assoc]; rfl
    have hs : ∃ e ∈ below, ¬t.Silent e := by
      refine Classical.byContradiction fun hno => h ⟨above, below, hc, fun e he => ?_⟩
      exact Classical.byContradiction fun hs => hno ⟨e, he, hs⟩
    exact inForce_of_spoken hc' hs fun e he =>
      verdict?_setAttributes_of_ne (fun heq => hnot (heq ▸ he)) s
  · have hc' : c.entries = [] ++ c.entries := rfl
    rw [inForce_append hc', inForce_append hc']
    rw [findSome?_congr fun e he => verdict?_setAttributes_of_ne (fun heq => hm (heq ▸ he)) s]
    rfl

/-- What is in force above a node: that of its directory, and nothing above the root. -/
def inForceAbove (t : Tree) (r : Registry) (d : NodeId) : Except Error (Option Policy) :=
  match (t.node? d).bind (·.parent) with
  | none => .ok none
  | some u => do t.inForce r (← t.chain (t.pathOf u))

namespace WellFormed

variable (ht : t.WellFormed)

include ht

/-- **A node is at most once on a chain.** -/
theorem not_mem_of_chain (hc : t.chain path = .ok c) (he : c.entries = above ++ some d :: below) :
    some d ∉ above ∧ some d ∉ below := by
  -- two places of one node would be equally far from the root
  have key : ∀ a b a' b' : List (Option NodeId), c.entries = a ++ some d :: b →
      c.entries = a' ++ some d :: b' → a.length = a'.length := by
    intro a b a' b' h h'
    have := congrArg List.length ((ht.chain_above hc h).trans (ht.chain_above hc h').symm)
    simpa using this
  constructor
  · intro hm
    obtain ⟨a, b, rfl⟩ := List.append_of_mem hm
    have := key a (b ++ some d :: below) _ below (by rw [he, List.append_assoc, List.cons_append]) he
    rw [List.length_append, List.length_cons] at this
    omega
  · intro hm
    obtain ⟨a, b, rfl⟩ := List.append_of_mem hm
    have := key _ b _ _ (by rw [he, ← List.cons_append, ← List.append_assoc]) he
    rw [List.length_append, List.length_cons] at this
    omega

/-- **What a node says afterwards is in force on all that it governs.** -/
theorem inForce_setAttributes_of_governs (hc : t.chain path = .ok c) (hg : t.Governs d c)
    {s : AttributeSet} {v : Except Error (Option Policy)}
    (hv : (t.setAttributes d s).verdict? r (some d) = some v) :
    (t.setAttributes d s).inForce r c = v := by
  obtain ⟨above, below, he, hbelow⟩ := hg
  have hnot := (ht.not_mem_of_chain hc he).2
  refine inForce_of_verdict he (fun e hm => ?_) hv
  exact silent_setAttributes_of_ne (fun heq => hnot (heq ▸ hm)) s (hbelow e hm)

/-- **A node that is silent afterwards leaves all that it governs to its directory.** -/
theorem inForce_setAttributes_of_silent (hc : t.chain path = .ok c) (hg : t.Governs d c)
    (hn : t.node? d = some n) {s : AttributeSet} (hs : (t.setAttributes d s).Silent (some d)) :
    (t.setAttributes d s).inForce r c = t.inForceAbove r d := by
  obtain ⟨above, below, he, hbelow⟩ := hg
  obtain ⟨habove, hnot⟩ := ht.not_mem_of_chain hc he
  have hsilent : ∀ e ∈ some d :: below, (t.setAttributes d s).Silent e := by
    intro e hm
    rcases List.mem_cons.1 hm with rfl | hm
    · exact hs
    · exact silent_setAttributes_of_ne (fun heq => hnot (heq ▸ hm)) s (hbelow e hm)
  rw [inForce_of_silent he hsilent,
    findSome?_congr fun e hm => verdict?_setAttributes_of_ne (fun heq => habove (heq ▸ hm)) s]
  -- what stands above the node on the chain is the chain of its directory
  have hup := ht.chain_above hc he
  unfold inForceAbove
  rw [hn, Option.bind_some]
  by_cases hd : d = root
  · subst hd
    obtain ⟨m, hm, -, -, hp⟩ := ht.rooted
    rw [hn] at hm; cases hm
    rw [ht.lineage_root.1] at hup
    have hnil : above = [] := by
      have := congrArg List.length hup
      rw [List.length_append] at this
      exact List.length_eq_zero_iff.1 (by simpa using this)
    rw [hp, hnil]; rfl
  · obtain ⟨u, m, hu, hlt, hm, -, -⟩ := ht.parent hn hd
    rw [lineage_of_parent hn hu hlt, List.map_append, List.map_singleton] at hup
    have habove' : above = (t.lineage u).map some := List.append_cancel_right hup
    simp only [hu, ht.chain_pathOf hm, habove']
    rfl

end WellFormed

end Tree

end PolicyTree
