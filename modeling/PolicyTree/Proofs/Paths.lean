import PolicyTree.Path

/-!
# Paths and lists of names

* `Path.enter_cases`: what one segment of a path does to the names so far.
* `Path.isName_of_normalize`: what a path normalises to can name nodes; `Path.normalize_error`: why it does
  not normalise.
* `Path.normalize_join`: **a canonical path normalises to the names that it was joined from**, so
  different lists of names have different canonical paths (`Path.join_injective`).
-/

namespace PolicyTree.Path

theorem not_mem_of_mem_splitOn {c : Char} {seg : List Char} : ∀ cs : List Char,
    seg ∈ cs.splitOn c → c ∉ seg := by
  intro cs
  induction cs generalizing seg with
  | nil => intro h; simp at h; simp [h]
  | cons x cs ih =>
    rw [List.splitOn_cons_eq_if_modifyHead]
    split
    · intro h
      rcases List.mem_cons.1 h with h | h
      · simp [h]
      · exact ih h
    · rename_i hx
      obtain ⟨hd, tl, hcs⟩ := List.exists_cons_of_ne_nil (List.splitOn_ne_nil c cs)
      rw [hcs, List.modifyHead_cons]
      intro h
      rcases List.mem_cons.1 h with h | h
      · subst h
        have hhd : c ∉ hd := ih (by simp [hcs])
        rw [List.mem_cons, not_or]
        exact ⟨fun he => hx (by simp [he]), hhd⟩
      · exact ih (by rw [hcs]; exact List.mem_cons_of_mem _ h)

theorem slash_not_mem_of_mem_segments {cs : List Char} {seg : String} (h : seg ∈ segments cs) :
    '/' ∉ seg.toList := by
  obtain ⟨l, hl, rfl⟩ := List.mem_map.1 h
  rw [String.toList_ofList]
  exact not_mem_of_mem_splitOn cs hl

/-- A path without names is not absolute, or leads above the root. -/
theorem normalize_error {path : String} {e : Error} (h : normalize path = .error e) :
    e = .relativePath path ∨ e = .pathEscapesRoot path := by
  unfold normalize at h
  split at h
  · split at h
    · cases h
    · cases h; exact Or.inr rfl
  · cases h; exact Or.inl rfl

/-! ## One segment -/

variable {seg : String} {names names' : List String}

/-- A segment that goes one directory down: it is not empty, and neither `.` nor `..`. -/
def Enters (seg : String) : Prop := seg ≠ "" ∧ seg ≠ "." ∧ seg ≠ ".."

instance (seg : String) : Decidable (Enters seg) := inferInstanceAs (Decidable (_ ∧ _))

/-- A segment stays, goes up or goes down. -/
theorem segment_cases (seg : String) : (seg = "" ∨ seg = ".") ∨ seg = ".." ∨ Enters seg := by
  by_cases hstays : seg = "" ∨ seg = "."
  · exact Or.inl hstays
  · have hne := not_or.1 hstays
    by_cases hup : seg = ".."
    · exact Or.inr (Or.inl hup)
    · exact Or.inr (Or.inr ⟨hne.1, hne.2, hup⟩)

theorem enter_of_stays (h : seg = "" ∨ seg = ".") (names : List String) : enter names seg = some names := by
  unfold enter
  rw [if_pos h]

theorem enter_up_nil : enter [] ".." = none := by decide

theorem enter_up_cons (name : String) (names : List String) : enter (name :: names) ".." = some names := by
  simp [enter]

theorem enter_of_enters (h : Enters seg) (names : List String) : enter names seg = some (seg :: names) := by
  have hstays : ¬(seg = "" ∨ seg = ".") := not_or.2 ⟨h.1, h.2.1⟩
  unfold enter
  rw [if_neg hstays, if_neg h.2.2]

/-- **One segment stays, goes up from a name, or goes down by one.** -/
theorem enter_cases (h : enter names seg = some names') :
    (seg = "" ∨ seg = ".") ∧ names' = names ∨ seg = ".." ∧ (∃ top, names = top :: names') ∨
      Enters seg ∧ names' = seg :: names := by
  rcases segment_cases seg with hstays | rfl | henters
  · rw [enter_of_stays hstays] at h
    exact Or.inl ⟨hstays, (Option.some.inj h).symm⟩
  · cases names with
    | nil => rw [enter_up_nil] at h; cases h
    | cons top above =>
      rw [enter_up_cons] at h
      exact Or.inr (Or.inl ⟨rfl, top, by rw [Option.some.inj h]⟩)
  · rw [enter_of_enters henters] at h
    exact Or.inr (Or.inr ⟨henters, (Option.some.inj h).symm⟩)

/-- One segment adds a name at most, and one that can name a node. -/
theorem isName_enter (hseg : '/' ∉ seg.toList) (hn : ∀ name ∈ names, IsName name) (h : enter names seg = some names') :
    ∀ name ∈ names', IsName name := by
  rcases enter_cases h with ⟨-, rfl⟩ | ⟨-, top, rfl⟩ | ⟨henters, rfl⟩
  · exact hn
  · exact fun name hm => hn name (List.mem_cons_of_mem _ hm)
  · intro name hm
    rcases List.mem_cons.1 hm with rfl | hm
    · exact ⟨henters.1, hseg, henters.2⟩
    · exact hn name hm

theorem isName_foldlM : ∀ (segs names names' : List String), (∀ seg ∈ segs, '/' ∉ seg.toList) →
    (∀ name ∈ names, IsName name) → segs.foldlM enter names = some names' →
    ∀ name ∈ names', IsName name := by
  intro segs
  induction segs with
  | nil => intro names names' _ hn h; cases h; exact hn
  | cons seg segs ih =>
    intro names names' hs hn h
    rw [List.foldlM_cons] at h
    obtain ⟨mid, hmid, h⟩ := Option.bind_eq_some_iff.1 h
    exact ih mid names' (fun s hm => hs s (List.mem_cons_of_mem _ hm))
      (isName_enter (hs seg List.mem_cons_self) hn hmid) h

/-- **What a path normalises to can name nodes.** -/
theorem isName_of_normalize {path : String} {names : List String} (h : normalize path = .ok names) :
    ∀ name ∈ names, IsName name := by
  unfold normalize at h
  split at h
  · rename_i rest _
    split at h
    · rename_i deepest hf
      cases h
      intro name hm
      exact isName_foldlM (segments rest) [] deepest (fun seg => slash_not_mem_of_mem_segments)
        (by simp) hf name (List.mem_reverse.1 hm)
    · cases h
  · cases h

theorem segments_join : ∀ (rest : List String) (name : String), (∀ n ∈ name :: rest, IsName n) →
    segments (name.toList ++ rest.flatMap fun n => '/' :: n.toList) = name :: rest := by
  intro rest
  induction rest with
  | nil =>
    intro name hn
    have h := hn name List.mem_cons_self
    unfold segments
    rw [List.flatMap_nil, List.append_nil, List.splitOn_eq_singleton h.2.1, List.map_singleton,
      String.ofList_toList]
  | cons next rest ih =>
    intro name hn
    have h := hn name List.mem_cons_self
    have ih := ih next fun n hm => hn n (List.mem_cons_of_mem _ hm)
    unfold segments at ih ⊢
    rw [List.flatMap_cons, List.cons_append, List.splitOn_append_cons_self_of_not_mem h.2.1,
      List.map_cons, ih, String.ofList_toList]

theorem foldlM_enter : ∀ (names acc : List String), (∀ n ∈ names, IsName n) →
    names.foldlM enter acc = some (names.reverse ++ acc) := by
  intro names
  induction names with
  | nil => intro acc _; rfl
  | cons name names ih =>
    intro acc hn
    have h := hn name List.mem_cons_self
    have henters : Enters name := ⟨h.1, h.2.2⟩
    rw [List.foldlM_cons, enter_of_enters henters, Option.bind_eq_bind, Option.bind_some,
      ih _ fun n hm => hn n (List.mem_cons_of_mem _ hm), List.reverse_cons, List.append_assoc,
      List.singleton_append]

/-- **A canonical path normalises to the names that it was joined from.** -/
theorem normalize_join {names : List String} (hn : ∀ n ∈ names, IsName n) :
    normalize (join names) = .ok names := by
  cases names with
  | nil => rfl
  | cons name rest =>
    have hl : (join (name :: rest)).toList =
        '/' :: (name.toList ++ rest.flatMap fun n => '/' :: n.toList) := by
      unfold join
      rw [List.isEmpty_cons, if_neg (by simp), String.toList_ofList, List.flatMap_cons,
        List.cons_append]
    unfold normalize
    rw [hl]
    simp only [segments_join rest name hn, foldlM_enter _ [] hn, List.append_nil, List.reverse_reverse]

theorem join_injective {names names' : List String} (hn : ∀ n ∈ names, IsName n)
    (hn' : ∀ n ∈ names', IsName n) (h : join names = join names') : names = names' := by
  have h1 := normalize_join hn
  rw [h, normalize_join hn'] at h1
  exact (Except.ok.inj h1).symm

end PolicyTree.Path
