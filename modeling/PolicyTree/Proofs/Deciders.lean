import PolicyTree.Proofs.Canonical
import PolicyTree.Proofs.Verdicts

/-!
# Chains of any kind

A chain need not come from a path: entries may be missing or lead to no node, stand twice, or in any order. What
is in force along it is still decided by one entry.

* `Node.Decisive`: a file, a link, or a directory with a policy attribute.
* `Tree.DecidesAt`, `Tree.DecidesLast`: the places of a chain that lead to such a node, and the last of them.
* `decider?_eq_some_iff`: **the walk ends at the last place that decides**, by a search from the end
  (`findSome?_reverse_eq_some_iff`).
* `Node.Settles`: what a decisive node makes of the policy in force.
* `last_place_settles`: **the last place that decides settles what is in force, and nothing else matters.**
-/

namespace PolicyTree

variable {t t' : Tree} {r : Registry} {c c' : Chain} {n : Node} {i i' : Nat}

theorem getElem?_concat_eq_some_iff {α : Type} {l : List α} {x a : α} {i : Nat} :
    (l ++ [x])[i]? = some a ↔ l[i]? = some a ∨ i = l.length ∧ x = a := by
  rcases Nat.lt_trichotomy i l.length with hlt | rfl | hgt
  · rw [List.getElem?_append_left hlt]
    exact ⟨.inl, fun h => h.resolve_right fun ⟨hi, _⟩ => Nat.ne_of_lt hlt hi⟩
  · simp
  · have hbeyond : (l ++ [x]).length ≤ i := by simpa using Nat.succ_le_of_lt hgt
    rw [List.getElem?_eq_none hbeyond, List.getElem?_eq_none (Nat.le_of_lt hgt)]
    exact ⟨nofun, fun h => h.elim nofun fun ⟨hi, _⟩ => absurd hi (Nat.ne_of_gt hgt)⟩

/-- **A search from the end** finds what the last place has that has anything. -/
theorem findSome?_reverse_eq_some_iff {α β : Type} {f : α → Option β} {l : List α} {b : β} :
    l.reverse.findSome? f = some b ↔
      ∃ (i : Nat) (a : α), l[i]? = some a ∧ f a = some b ∧
        ∀ (j : Nat) (e : α), i < j → l[j]? = some e → f e = none := by
  induction l using List.reverseRecOn with
  | nil => simp
  | append_singleton l x ih =>
    rw [List.reverse_append, List.reverse_singleton, List.singleton_append, List.findSome?_cons]
    simp only [getElem?_concat_eq_some_iff]
    cases hx : f x with
    | some b' =>
      -- the last entry has something, and the search ends at once
      constructor
      · rintro ⟨⟩
        refine ⟨l.length, x, .inr ⟨rfl, rfl⟩, hx, fun j e hj he => ?_⟩
        obtain he | ⟨rfl, _⟩ := he
        · exact absurd (List.getElem?_eq_some_iff.1 he).1 (Nat.lt_asymm hj)
        · exact absurd hj (Nat.lt_irrefl _)
      · rintro ⟨i, a, hi | ⟨_, rfl⟩, ha, hlater⟩
        · have hlt : i < l.length := (List.getElem?_eq_some_iff.1 hi).1
          rw [hlater l.length x hlt (.inr ⟨rfl, rfl⟩)] at hx; cases hx
        · exact hx.symm.trans ha
    | none =>
      -- the last entry has nothing: it is neither the place found nor against it
      rw [ih]
      constructor
      · rintro ⟨i, a, hi, ha, hlater⟩
        refine ⟨i, a, .inl hi, ha, fun j e hj he => ?_⟩
        obtain he | ⟨_, rfl⟩ := he
        · exact hlater j e hj he
        · exact hx
      · rintro ⟨i, a, hi | ⟨_, rfl⟩, ha, hlater⟩
        · exact ⟨i, a, hi, ha, fun j e hj he => hlater j e hj (.inl he)⟩
        · rw [hx] at ha; cases ha

/-! ## Decisive nodes -/

/-- **A node that decides**: a file, a link, or a directory with a policy attribute. -/
def Node.Decisive (n : Node) : Prop :=
  n.kind.type = .file ∨ n.kind.type = .link ∨
    n.kind.type = .directory ∧ ∃ a ∈ n.attributes.toList, a.name = PolicyName.key

/-- **What a node makes of the policy in force.** A file has the policy known under its number, and a link has
none. A directory has the enabled policy that its attribute names, and an attribute that is no written name is
damaged. -/
structure Node.Settles (n : Node) (r : Registry) (v : Except Error (Option Policy)) : Prop where
  file : ∀ raw, n.kind = .file raw → v = .ok (if raw < 0 then none else r.byId? raw.toUInt8)
  link : n.kind.type = .link → v = .ok none
  named : ∀ a name, n.kind.type = .directory → n.attributes.find? PolicyName.key = some a →
    (Text.utf8 name).length ≤ 2 ^ 31 - 1 → a.value = PolicyName.encode name → v = .ok (r.enabledNamed? name)
  damaged : ∀ a, n.kind.type = .directory → n.attributes.find? PolicyName.key = some a →
    (¬∃ name, (Text.utf8 name).length ≤ 2 ^ 31 - 1 ∧ a.value = PolicyName.encode name) →
      ∃ e, v = .error e ∧ e.kind = .corruptAttribute

theorem Node.decisive_iff_speaks : n.Decisive ↔ n.speaks = true := by
  have hattribute : (∃ a ∈ n.attributes.toList, a.name = PolicyName.key) ↔
      (n.attributes.find? PolicyName.key).isSome := by
    rw [AttributeSet.find?, List.find?_isSome]
    simp
  unfold Decisive speaks isDirectory
  rw [hattribute]
  cases n.kind.type <;> simp

namespace Tree

/-- **A place of a chain decides**: its entry leads to a decisive node. -/
def DecidesAt (t : Tree) (c : Chain) (i : Nat) (n : Node) : Prop :=
  (∃ id, c.entries[i]? = some (some id) ∧ t.node? id = some n) ∧ n.Decisive

/-- **The last place of a chain that decides.** -/
def DecidesLast (t : Tree) (c : Chain) (i : Nat) (n : Node) : Prop :=
  t.DecidesAt c i n ∧ ∀ j m, i < j → ¬t.DecidesAt c j m

theorem decidesAt_iff : t.DecidesAt c i n ↔
    ∃ e, c.entries[i]? = some e ∧ (e.bind t.node?).filter Node.speaks = some n := by
  unfold DecidesAt
  constructor
  · rintro ⟨⟨id, he, hn⟩, hdecisive⟩
    refine ⟨some id, he, ?_⟩
    rw [Option.bind_some, hn, Option.filter_some_pos (Node.decisive_iff_speaks.1 hdecisive)]
  · rintro ⟨e, he, hf⟩
    obtain ⟨hn, hspeaks⟩ := Option.filter_eq_some_iff.1 hf
    obtain ⟨id, rfl, hn⟩ := Option.bind_eq_some_iff.1 hn
    exact ⟨⟨id, he, hn⟩, Node.decisive_iff_speaks.2 hspeaks⟩

/-- **The node that decides is that of the last place that decides.** -/
theorem decider?_eq_some_iff : t.decider? c = some n ↔ ∃ i, t.DecidesLast c i n := by
  unfold decider? DecidesLast
  rw [findSome?_reverse_eq_some_iff]
  constructor
  · rintro ⟨i, e, he, hf, hlater⟩
    refine ⟨i, decidesAt_iff.2 ⟨e, he, hf⟩, fun j m hj hm => ?_⟩
    obtain ⟨e', he', hf'⟩ := decidesAt_iff.1 hm
    rw [hlater j e' hj he'] at hf'; cases hf'
  · rintro ⟨i, hi, hlater⟩
    obtain ⟨e, he, hf⟩ := decidesAt_iff.1 hi
    refine ⟨i, e, he, hf, fun j e' hj he' => ?_⟩
    rw [Option.eq_none_iff_forall_ne_some]
    exact fun m hf' => hlater j m hj (decidesAt_iff.2 ⟨e', he', hf'⟩)

theorem decider?_eq_none_iff : t.decider? c = none ↔ ∀ i n, ¬t.DecidesAt c i n := by
  unfold decider?
  rw [List.findSome?_eq_none_iff]
  constructor
  · intro h i n hi
    obtain ⟨e, he, hf⟩ := decidesAt_iff.1 hi
    rw [h e (List.mem_reverse.2 (List.mem_of_getElem? he))] at hf; cases hf
  · intro h e he
    obtain ⟨i, hi⟩ := List.getElem?_of_mem (List.mem_reverse.1 he)
    rw [Option.eq_none_iff_forall_ne_some]
    exact fun n hf => h i n (decidesAt_iff.2 ⟨e, hi, hf⟩)

/-- **What is in force is settled by the node that decides.** -/
theorem settles_inForce (h : t.decider? c = some n) (r : Registry) : n.Settles r (t.inForce r c) where
  file := by
    intro raw hk
    rw [inForce_of_file_decider h hk, Registry.ofFile?]
  link := fun hk => inForce_of_link h hk r
  named := by
    intro a name hk ha hshort hvalue
    obtain ⟨a', ha', hforce⟩ := inForce_of_directory_decider h (by rw [Node.isDirectory, hk]; rfl)
    obtain rfl : a' = a := Option.some.inj (ha'.symm.trans ha)
    rw [hforce, PolicyName.decode_eq_ok_iff.2 ⟨hshort, hvalue⟩]; rfl
  damaged := by
    intro a hk ha hother
    obtain ⟨a', ha', hforce⟩ := inForce_of_directory_decider h (by rw [Node.isDirectory, hk]; rfl)
    obtain rfl : a' = a := Option.some.inj (ha'.symm.trans ha)
    cases hdecode : PolicyName.decode a'.value with
    | ok name => exact absurd ⟨name, PolicyName.decode_eq_ok_iff.1 hdecode⟩ hother
    | error e => exact ⟨e, by rw [hforce, hdecode]; rfl, PolicyName.kind_of_decode_error hdecode⟩

/-- **The last place that decides settles what is in force along a chain of any kind, and nothing else matters.**
Where no place decides, nothing is in force. Otherwise there is a last place that does, and its node settles the
answer alone: a directory's policy that is not enabled, or that cannot be read, is not made up for by what stands
before it, and no damage before it shows. Any other chain through any other tree comes to the same answer if that
node is the last to decide on it. -/
theorem last_place_settles (t : Tree) (r : Registry) (c : Chain) :
    ((∀ i n, ¬t.DecidesAt c i n) → t.inForce r c = .ok none) ∧
      ((∃ i n, t.DecidesAt c i n) → ∃ i n, t.DecidesLast c i n) ∧
      ∀ i n, t.DecidesLast c i n → n.Settles r (t.inForce r c) ∧
        ∀ t' c' i', DecidesLast t' c' i' n → t'.inForce r c' = t.inForce r c := by
  refine ⟨fun h => inForce_of_no_decider (decider?_eq_none_iff.2 h) r, ?_, ?_⟩
  · rintro ⟨i, n, hi⟩
    cases h : t.decider? c with
    | none => exact absurd hi (decider?_eq_none_iff.1 h i n)
    | some m =>
      obtain ⟨j, hj⟩ := decider?_eq_some_iff.1 h
      exact ⟨j, m, hj⟩
  · intro i n hi
    have h : t.decider? c = some n := decider?_eq_some_iff.2 ⟨i, hi⟩
    refine ⟨settles_inForce h r, fun t' c' i' hi' => ?_⟩
    have h' : t'.decider? c' = some n := decider?_eq_some_iff.2 ⟨i', hi'⟩
    rw [inForce_eq_decider, inForce_eq_decider, h, h']

/-- A tree put together by hand, with a damaged policy on the root, a policy on a directory and a file in another. -/
def assorted : Tree :=
  ⟨[{ id := 0, name := "", parent := none, kind := .directory ⟨[("a", 1), ("b", 2)]⟩,
      attributes := ⟨[⟨PolicyName.key, [7]⟩]⟩ },
    { id := 1, name := "a", parent := some 0, kind := .emptyDirectory,
      attributes := ⟨[⟨"user.x", [1]⟩, PolicyName.toAttribute "XOR-2-1-1024k"]⟩ },
    { id := 2, name := "b", parent := some 0, kind := .directory ⟨[("c", 3)]⟩ },
    { id := 3, name := "c", parent := some 2, kind := .file 3 }]⟩

/-- A chain with missing, unknown, repeated and misplaced entries. -/
def scattered : Chain := ⟨"/x", [some 0, some 3, none, some 9, some 1, some 0, some 1, some 2, none]⟩

/-- On the scattered chain a directory decides, and its policy is in force once it is enabled: neither the file nor the
damaged root before it matters. On a chain without the three nothing is in force. -/
theorem last_place_settles_assorted :
    assorted.DecidesLast scattered 6
        ⟨1, "a", some 0, .emptyDirectory, ⟨[⟨"user.x", [1]⟩, PolicyName.toAttribute "XOR-2-1-1024k"]⟩⟩ ∧
      assorted.inForce (Registry.system.switch 4 true) scattered =
        .ok (some ⟨4, ⟨"xor", 2, 1⟩, systemCellSize⟩) ∧
      assorted.inForce Registry.system scattered = .ok none ∧
      assorted.inForce Registry.system ⟨"", [some 9, some 2, none]⟩ = .ok none := by
  have hlast : assorted.DecidesLast scattered 6
      ⟨1, "a", some 0, .emptyDirectory, ⟨[⟨"user.x", [1]⟩, PolicyName.toAttribute "XOR-2-1-1024k"]⟩⟩ := by
    refine ⟨⟨⟨1, rfl, rfl⟩, .inr (.inr ⟨rfl, _, List.mem_cons_of_mem _ List.mem_cons_self, rfl⟩)⟩, ?_⟩
    rintro j m hj ⟨⟨id, he, hn⟩, hdecisive⟩
    have hj' : j < 9 := (List.getElem?_eq_some_iff.1 he).1
    obtain rfl | rfl : j = 7 ∨ j = 8 := by omega
    · cases he; cases hn
      exact absurd (Node.decisive_iff_speaks.1 hdecisive) (by decide)
    · cases he
  have hnone : ∀ i n, ¬assorted.DecidesAt ⟨"", [some 9, some 2, none]⟩ i n :=
    decider?_eq_none_iff.1 rfl
  have henabled := ((last_place_settles assorted (Registry.system.switch 4 true) _).2.2 _ _ hlast).1
  have hdisabled := ((last_place_settles assorted Registry.system _).2.2 _ _ hlast).1
  refine ⟨hlast, ?_, ?_, (last_place_settles assorted Registry.system _).1 hnone⟩
  · exact henabled.named _ _ rfl rfl (by decide) rfl
  · exact hdisabled.named _ _ rfl rfl (by decide) rfl

end Tree

end PolicyTree
