import Mathlib.Data.List.Infix
import PolicyTree.Proofs.Paths

/-!
# How deep a path leads

A segment of a path goes one directory down, or one up, or stays. A path can be followed if it starts at the root
and no beginning of it goes up more often than down; what counts is every beginning, not the whole.

* `Path.downs`, `Path.ups`: how many segments go down and up.
* `Path.foldlM_enter_eq_none_iff`, `Path.length_foldlM_enter`: **when a walk leaves the root, and how deep it ends.**
* `Path.normalize_append`: **what is put after a path is walked from the names of the path**, however these were
  written.
* `depths_decide`: **which paths can be followed, how deep they lead, and that a path may be normalised early.**
-/

namespace PolicyTree

namespace Path

variable {path rest seg : String} {segs names names' : List String}

/-- How many of the segments go down. -/
def downs (segs : List String) : Nat := segs.countP (Enters ·)

/-- How many of the segments go up. -/
def ups (segs : List String) : Nat := segs.count ".."

theorem counts_of_stays (h : seg = "" ∨ seg = ".") (segs : List String) :
    downs (seg :: segs) = downs segs ∧ ups (seg :: segs) = ups segs := by
  rcases h with rfl | rfl <;> simp [downs, ups, Enters]

theorem counts_of_up (segs : List String) :
    downs (".." :: segs) = downs segs ∧ ups (".." :: segs) = ups segs + 1 := by
  simp [downs, ups, Enters]

theorem counts_of_enters (h : Enters seg) (segs : List String) :
    downs (seg :: segs) = downs segs + 1 ∧ ups (seg :: segs) = ups segs := by
  simp [downs, ups, h, h.2.2]

/-! ## A walk -/

/-- The empty beginning never goes up, so what goes up too often has the first segment in it. -/
theorem escape_cons_iff (depth : Nat) : (∃ above, above <+: seg :: segs ∧ depth + downs above < ups above) ↔
    ∃ above, above <+: segs ∧ depth + downs (seg :: above) < ups (seg :: above) := by
  constructor
  · rintro ⟨beginning, hbeginning, hlt⟩
    rcases List.prefix_cons_iff.1 hbeginning with rfl | ⟨above, rfl, habove⟩
    · simp [downs, ups] at hlt
    · exact ⟨above, habove, hlt⟩
  · rintro ⟨above, habove, hlt⟩
    exact ⟨seg :: above, List.cons_prefix_cons.2 ⟨rfl, habove⟩, hlt⟩

/-- **A walk leaves the root exactly if some beginning of it goes up more often** than it goes down and the walk
started deep. -/
theorem foldlM_enter_eq_none_iff : ∀ segs names : List String, segs.foldlM enter names = none ↔
    ∃ above, above <+: segs ∧ names.length + downs above < ups above := by
  intro segs
  induction segs with
  | nil => intro names; simp [downs, ups]
  | cons seg segs ih =>
    intro names
    rw [escape_cons_iff, List.foldlM_cons]
    rcases segment_cases seg with hstays | rfl | henters
    · have hcounts := counts_of_stays hstays
      rw [enter_of_stays hstays, Option.bind_eq_bind, Option.bind_some, ih]
      simp only [hcounts]
    · have hcounts := counts_of_up
      cases names with
      | nil =>
        have hfirst : ([] : List String).length + downs [".."] < ups [".."] := by decide
        exact iff_of_true (by rw [enter_up_nil]; rfl) ⟨[], List.nil_prefix, hfirst⟩
      | cons name names =>
        rw [enter_up_cons, Option.bind_eq_bind, Option.bind_some, ih]
        refine exists_congr fun above => and_congr_right fun _ => ?_
        rw [(hcounts above).1, (hcounts above).2, List.length_cons]
        omega
    · have hcounts := counts_of_enters henters
      rw [enter_of_enters henters, Option.bind_eq_bind, Option.bind_some, ih]
      refine exists_congr fun above => and_congr_right fun _ => ?_
      rw [(hcounts above).1, (hcounts above).2, List.length_cons]
      omega

/-- **A walk ends as deep as it started, and deeper by what it goes down more than up.** -/
theorem length_foldlM_enter : ∀ segs names : List String, segs.foldlM enter names = some names' →
    names'.length + ups segs = names.length + downs segs := by
  intro segs
  induction segs with
  | nil =>
    intro names h
    cases h
    simp [downs, ups]
  | cons seg segs ih =>
    intro names h
    rw [List.foldlM_cons] at h
    obtain ⟨mid, hmid, h⟩ := Option.bind_eq_some_iff.1 h
    have hrest := ih mid h
    rcases enter_cases hmid with ⟨hstays, rfl⟩ | ⟨rfl, top, rfl⟩ | ⟨henters, rfl⟩
    · have hcounts := counts_of_stays hstays segs
      omega
    · have hcounts := counts_of_up segs
      rw [List.length_cons]
      omega
    · have hcounts := counts_of_enters henters segs
      rw [List.length_cons] at hrest
      omega

/-! ## A path as one walk -/

/-- The path starts at the root. -/
def Absolute (path : String) : Prop := path.toList.head? = some '/'

instance (path : String) : Decidable (Absolute path) := inferInstanceAs (Decidable (_ = _))

/-- Some beginning of the path's segments goes up more often than down. -/
def Escapes (path : String) : Prop := ∃ above, above <+: segments path.toList ∧ downs above < ups above

/-- What a walk along a path comes to: the names from the root down, or the error that the path leads above it. -/
def arrival (path : String) : Option (List String) → Except Error (List String)
  | some names => .ok names.reverse
  | none => .error (.pathEscapesRoot path)

theorem arrival_eq_ok_iff {walk : Option (List String)} :
    arrival path walk = .ok names ↔ walk = some names.reverse := by
  cases walk with
  | none => simp [arrival]
  | some deepest => simp [arrival, List.reverse_eq_iff]

theorem normalize_of_not_absolute (h : ¬Absolute path) : normalize path = .error (.relativePath path) := by
  unfold normalize
  split
  · rename_i cs hcs
    exact absurd (by rw [Absolute, hcs, List.head?_cons]) h
  · rfl

/-- **An absolute path is one walk along all its segments**, the empty one before the first slash included. -/
theorem normalize_of_absolute (h : Absolute path) :
    normalize path = arrival path ((segments path.toList).foldlM enter []) := by
  obtain ⟨cs, hcs⟩ : ∃ cs, path.toList = '/' :: cs := List.head?_eq_some_iff.1 h
  have hsegments : segments ('/' :: cs) = "" :: segments cs := by
    simp [segments, List.splitOn_cons_eq_if_modifyHead]
  have hfirst : (segments ('/' :: cs)).foldlM enter [] = (segments cs).foldlM enter [] := by
    rw [hsegments, List.foldlM_cons, enter_of_stays (Or.inl rfl), Option.bind_eq_bind, Option.bind_some]
  unfold normalize
  rw [hcs, hfirst]
  cases hwalk : (segments cs).foldlM enter [] <;> simp [hwalk, arrival]

theorem absolute_of_normalize (h : normalize path = .ok names) : Absolute path := by
  by_cases habs : Absolute path
  · exact habs
  · rw [normalize_of_not_absolute habs] at h
    cases h

/-- The segments of a path and of what is put after it. -/
theorem segments_append (path rest : String) :
    segments (path ++ "/" ++ rest).toList = segments path.toList ++ segments rest.toList := by
  have hchars : (path ++ "/" ++ rest).toList = path.toList ++ '/' :: rest.toList := by
    simp [String.toList_append]
  rw [hchars, segments, List.splitOn_append_cons_self, List.map_append]
  rfl

/-- **What is put after a path is walked from the names of the path**, so it does not matter how these were
written. -/
theorem normalize_append (h : normalize path = .ok names) (rest : String) :
    normalize (path ++ "/" ++ rest) =
      arrival (path ++ "/" ++ rest) ((segments rest.toList).foldlM enter names.reverse) := by
  have habs : Absolute path := absolute_of_normalize h
  have hlonger : Absolute (path ++ "/" ++ rest) := by
    obtain ⟨cs, hcs⟩ : ∃ cs, path.toList = '/' :: cs := List.head?_eq_some_iff.1 habs
    simp [Absolute, String.toList_append, hcs]
  have hwalk : (segments path.toList).foldlM enter [] = some names.reverse := by
    rw [normalize_of_absolute habs] at h
    exact arrival_eq_ok_iff.1 h
  rw [normalize_of_absolute hlonger, segments_append, List.foldlM_append, hwalk, Option.bind_eq_bind,
    Option.bind_some]

/-! ## Which paths can be followed -/

/-- An absolute path fails exactly if it escapes. -/
theorem normalize_eq_error_iff (habs : Absolute path) :
    normalize path = .error (.pathEscapesRoot path) ↔ Escapes path := by
  have hwalk := foldlM_enter_eq_none_iff (segments path.toList) []
  simp only [List.length_nil, Nat.zero_add] at hwalk
  rw [normalize_of_absolute habs, Escapes, ← hwalk]
  cases (segments path.toList).foldlM enter [] <;> simp [arrival]

/-- A path that does not start at the root fails for that; any other for escaping. -/
theorem report_of_normalize_error {e : Error} (h : normalize path = .error e) : e.report = ⟨.invalidInput,
    if Absolute path then "path escapes the root directory" else "path must be absolute", .path path⟩ := by
  by_cases habs : Absolute path
  · rw [if_pos habs]
    rw [normalize_of_absolute habs] at h
    cases hwalk : (segments path.toList).foldlM enter [] with
    | none => rw [hwalk] at h; cases h; rfl
    | some names => rw [hwalk] at h; cases h
  · rw [if_neg habs]
    rw [normalize_of_not_absolute habs] at h
    cases h
    rfl

/-- **A path fails exactly if it does not start at the root, or escapes.** -/
theorem normalize_fails_iff : (∃ e, normalize path = .error e) ↔ ¬Absolute path ∨ Escapes path := by
  by_cases habs : Absolute path
  · rw [← normalize_eq_error_iff habs, normalize_of_absolute habs]
    cases (segments path.toList).foldlM enter [] <;> simp [arrival, habs]
  · exact iff_of_true ⟨_, normalize_of_not_absolute habs⟩ (Or.inl habs)

/-- A path has as many names as it goes down more than up. -/
theorem length_of_normalize (h : normalize path = .ok names) :
    names.length + ups (segments path.toList) = downs (segments path.toList) := by
  rw [normalize_of_absolute (absolute_of_normalize h), arrival_eq_ok_iff] at h
  have hlength := length_foldlM_enter _ _ h
  rw [List.length_reverse, List.length_nil, Nat.zero_add] at hlength
  exact hlength

/-- A path that does not fail has names. -/
theorem exists_normalize (habs : Absolute path) (hstays : ¬Escapes path) : ∃ names, normalize path = .ok names := by
  cases hp : normalize path with
  | error e => exact absurd (normalize_fails_iff.1 ⟨e, hp⟩) (not_or.2 ⟨not_not.2 habs, hstays⟩)
  | ok names => exact ⟨names, rfl⟩

/-- **A path may be normalised before something is put after it.** -/
theorem normalize_early (h : normalize path = .ok names) (rest : String) :
    (∃ names', normalize (path ++ "/" ++ rest) = .ok names' ∧
        normalize (join names ++ "/" ++ rest) = .ok names') ∨
      normalize (path ++ "/" ++ rest) = .error (.pathEscapesRoot (path ++ "/" ++ rest)) ∧
        normalize (join names ++ "/" ++ rest) = .error (.pathEscapesRoot (join names ++ "/" ++ rest)) := by
  have hjoin : normalize (join names) = .ok names := normalize_join (isName_of_normalize h)
  rw [normalize_append h, normalize_append hjoin]
  cases (segments rest.toList).foldlM enter names.reverse with
  | none => exact Or.inr ⟨rfl, rfl⟩
  | some deepest => exact Or.inl ⟨deepest.reverse, rfl, rfl⟩

end Path

/-- **Which paths can be followed, and how deep they lead.** A path fails exactly if it does not start with a slash
or some beginning of its segments has more `..` than segments that can name something; it is the beginnings that
count, so a path that goes down as often as up may fail as well. The error says which of the two it was, and carries
the path as it was given. A path that does not fail has as many names as there are segments that can name something
more than there are `..`.

Such a path may be normalised before more is put after it: whatever is put there, with `..`, `.` and empty segments
of its own, the names are the same, or both paths lead above the root. -/
theorem depths_decide (path : String) :
    ((∃ e, Path.normalize path = .error e) ↔ ¬Path.Absolute path ∨
        ∃ above, above <+: Path.segments path.toList ∧ Path.downs above < Path.ups above) ∧
      (∀ e, Path.normalize path = .error e → e.report = ⟨.invalidInput,
        if Path.Absolute path then "path escapes the root directory" else "path must be absolute", .path path⟩) ∧
      (Path.Absolute path → (∀ above, above <+: Path.segments path.toList → Path.ups above ≤ Path.downs above) →
        ∃ names, Path.normalize path = .ok names ∧
          names.length + Path.ups (Path.segments path.toList) = Path.downs (Path.segments path.toList)) ∧
      ∀ names, Path.normalize path = .ok names → ∀ rest,
        (∃ names', Path.normalize (path ++ "/" ++ rest) = .ok names' ∧
          Path.normalize (Path.join names ++ "/" ++ rest) = .ok names') ∨
        ∃ e e', Path.normalize (path ++ "/" ++ rest) = .error e ∧
          Path.normalize (Path.join names ++ "/" ++ rest) = .error e' ∧
          e.kind = .invalidInput ∧ e'.kind = .invalidInput := by
  refine ⟨Path.normalize_fails_iff, fun e => Path.report_of_normalize_error, fun habs hups => ?_,
    fun names hp rest => ?_⟩
  · have hstays : ¬Path.Escapes path := by
      rintro ⟨above, habove, hlt⟩
      exact Nat.not_lt.2 (hups above habove) hlt
    obtain ⟨names, hp⟩ := Path.exists_normalize habs hstays
    exact ⟨names, hp, Path.length_of_normalize hp⟩
  · rcases Path.normalize_early hp rest with hnames | ⟨he, he'⟩
    · exact Or.inl hnames
    · exact Or.inr ⟨_, _, he, he', rfl, rfl⟩

/-- A path that goes down more often than up and still escapes, and one that does not start at the root. A roundabout
path goes down twice and up once; after it, one tail leads below the root again and another one above it. -/
theorem depths_decide_roundabout :
    (∃ e, Path.normalize "/../a/b" = .error e ∧
        e.report = ⟨.invalidInput, "path escapes the root directory", .path "/../a/b"⟩) ∧
      (∃ e, Path.normalize "a/b" = .error e ∧ e.report = ⟨.invalidInput, "path must be absolute", .path "a/b"⟩) ∧
      (∃ names, Path.normalize "/a/./b//.." = .ok names ∧ names.length + 1 = 2) ∧
      (∃ names', Path.normalize "/a/./b//../..//x/." = .ok names' ∧ Path.normalize "/a/..//x/." = .ok names') ∧
      ∃ e e', Path.normalize "/a/./b//../../.." = .error e ∧ Path.normalize "/a/../.." = .error e' ∧
        e.kind = .invalidInput ∧ e'.kind = .invalidInput := by
  obtain ⟨hescapes, hreport, -⟩ := depths_decide "/../a/b"
  obtain ⟨hrelative, hreport', -⟩ := depths_decide "a/b"
  obtain ⟨-, -, hlength, hearly⟩ := depths_decide "/a/./b//.."
  have hp : Path.normalize "/a/./b//.." = .ok ["a"] := rfl
  obtain ⟨e, he⟩ := hescapes.2 (Or.inr ⟨["", ".."], by decide, by decide⟩)
  obtain ⟨e', he'⟩ := hrelative.2 (Or.inl (by decide))
  have hups : ∀ above ∈ (Path.segments "/a/./b//..".toList).inits, Path.ups above ≤ Path.downs above := by decide
  refine ⟨⟨e, he, hreport e he⟩, ⟨e', he', hreport' e' he'⟩, ?_, ?_, ?_⟩
  · exact hlength (by decide) fun above habove => hups above ((List.mem_inits _ _).2 habove)
  · rcases hearly ["a"] hp "..//x/." with hnames | ⟨e, -, he, -⟩
    · exact hnames
    · cases he
  · rcases hearly ["a"] hp "../.." with ⟨names', h, -⟩ | herrors
    · cases h
    · exact herrors

end PolicyTree
