import Mathlib.Data.List.DropRight
import PolicyTree.Config
import PolicyTree.Proofs.Paths

/-!
# Lists of names in a text

A text lists names with commas between. Blanks around a name do not belong to it, and where nothing else stands there is
no name.

* `Text.Trimmed`: no blank stands at an end. `Text.trimmed_trim`, `Text.trim_padded`: **trimming comes to that**, and
  takes away just the blanks around.
* `Config.IsItem`: what a list can hold. `Config.isItem_of_mem_parseNames`: **it holds nothing else.**
* `Config.parseNames_append`: **a comma divides a list in two.**
* `Config.Entry`: a name with blanks around it. `Config.parseNames_entries`: **the names come back from their text.**
* `lists_parse_back`: all of this.
-/

namespace PolicyTree

/-! ## Blanks at the ends -/

namespace Text

variable {cs before after : List Char}

/-- No blank stands at an end. -/
def Trimmed (cs : List Char) : Prop :=
  (∀ c ∈ cs.head?, isBlank c = false) ∧ ∀ c ∈ cs.getLast?, isBlank c = false

-- the ends are looked at, not every character that there is
instance (cs : List Char) : Decidable (Trimmed cs) :=
  @instDecidableAnd _ _ (Option.decidableForallMem _) (Option.decidableForallMem _)

theorem trim_eq (cs : List Char) : trim cs = (cs.dropWhile isBlank).rdropWhile isBlank := rfl

/-- **What has been trimmed has no blank at an end.** -/
theorem trimmed_trim (cs : List Char) : Trimmed (trim cs) := by
  rw [trim_eq]
  constructor
  · intro c hc
    -- the first character is still the one that the blanks in front were dropped up to
    obtain ⟨rest, hrest⟩ := List.rdropWhile_prefix isBlank (cs.dropWhile isBlank)
    have hfirst : (cs.dropWhile isBlank).head? = some c := by
      rw [← hrest, List.head?_append, hc, Option.some_or]
    have hstop := List.head?_dropWhile_not isBlank cs
    rwa [hfirst] at hstop
  · intro c hc
    have hne : (cs.dropWhile isBlank).rdropWhile isBlank ≠ [] := by
      rintro h
      rw [h] at hc
      cases hc
    have hlast := List.rdropWhile_last_not isBlank _ hne
    rw [List.getLast?_eq_some_getLast hne, Option.mem_some] at hc
    rw [← hc]
    simpa using hlast

/-- **Trimming takes away just the blanks around.** -/
theorem trim_padded (hbefore : ∀ c ∈ before, isBlank c) (hcs : Trimmed cs) (hne : cs ≠ [])
    (hafter : ∀ c ∈ after, isBlank c) : trim (before ++ cs ++ after) = cs := by
  have hstop : ∀ (l rest : List Char), l ≠ [] → (∀ c ∈ l.head?, isBlank c = false) →
      (l ++ rest).dropWhile isBlank = l ++ rest := by
    intro l rest hl hfirst
    obtain ⟨c, more, rfl⟩ := List.exists_cons_of_ne_nil hl
    exact List.dropWhile_cons_of_neg (by simpa using hfirst c rfl)
  have hback : ∀ c ∈ cs.reverse.head?, isBlank c = false := by
    rw [List.head?_reverse]
    exact hcs.2
  have hreverse := hstop cs.reverse [] (by simpa using hne) hback
  rw [List.append_nil] at hreverse
  rw [trim, List.append_assoc, List.dropWhile_append_of_pos hbefore, hstop cs after hne hcs.1, List.reverse_append,
    List.dropWhile_append_of_pos (fun c hc => hafter c (List.mem_reverse.1 hc)), hreverse, List.reverse_reverse]

theorem mem_of_mem_trim {c : Char} (h : c ∈ trim cs) : c ∈ cs := by
  have hkept := List.rdropWhile_prefix isBlank (cs.dropWhile isBlank)
  have hdropped := hkept.subset (trim_eq cs ▸ h)
  exact (List.dropWhile_suffix isBlank).subset hdropped

end Text

/-! ## Items -/

namespace Config

variable {name listing : String} {names : List String}

/-- **What a list can hold**: a text that is not empty, has no comma in it, and no blank at an end. -/
def IsItem (name : String) : Prop := name ≠ "" ∧ ',' ∉ name.toList ∧ Text.Trimmed name.toList

instance (name : String) : Decidable (IsItem name) := inferInstanceAs (Decidable (_ ∧ _))

/-- The names in the texts between the commas. -/
def namesIn (pieces : List (List Char)) : List String :=
  ((pieces.map Text.trim).filter (!·.isEmpty)).map String.ofList

theorem parseNames_eq (listing : String) : parseNames listing = namesIn (listing.toList.splitOn ',') := rfl

theorem namesIn_append (pieces more : List (List Char)) :
    namesIn (pieces ++ more) = namesIn pieces ++ namesIn more := by
  simp only [namesIn, List.map_append, List.filter_append]

/-- **Each name in a text is an item.** -/
theorem isItem_of_mem_parseNames (h : name ∈ parseNames listing) : IsItem name := by
  obtain ⟨cs, hcs, rfl⟩ := List.mem_map.1 h
  obtain ⟨hmem, hne⟩ := List.mem_filter.1 hcs
  obtain ⟨piece, hpiece, rfl⟩ := List.mem_map.1 hmem
  have hcomma : ',' ∉ piece := Path.not_mem_of_mem_splitOn _ hpiece
  refine ⟨fun hempty => ?_, fun hc => ?_, ?_⟩
  · have hnil : Text.trim piece = [] := String.ofList_eq_empty_iff.1 hempty
    rw [hnil] at hne
    cases hne
  · rw [String.toList_ofList] at hc
    exact hcomma (Text.mem_of_mem_trim hc)
  · rw [String.toList_ofList]
    exact Text.trimmed_trim piece

/-- **A comma divides a list in two.** -/
theorem parseNames_append (a b : String) : parseNames (a ++ "," ++ b) = parseNames a ++ parseNames b := by
  have hcomma : (a ++ "," ++ b).toList = a.toList ++ ',' :: b.toList := by simp
  rw [parseNames_eq, hcomma, List.splitOn_append_cons_self, namesIn_append]
  rfl

/-- A name as it stands in a text. -/
structure Entry where
  before : String
  name : String
  after : String

namespace Entry

/-- A name with what stands around it. -/
def text (e : Entry) : String := e.before ++ e.name ++ e.after

/-- An item with blanks around it. -/
structure Spaced (e : Entry) : Prop where
  before : ∀ c ∈ e.before.toList, Text.isBlank c
  item : IsItem e.name
  after : ∀ c ∈ e.after.toList, Text.isBlank c

variable {e : Entry}

theorem Spaced.ne_nil (h : e.Spaced) : e.name.toList ≠ [] := fun hnil => h.item.1 (String.toList_eq_nil_iff.1 hnil)

theorem Spaced.trim_text (h : e.Spaced) : Text.trim e.text.toList = e.name.toList := by
  rw [text, String.toList_append, String.toList_append]
  exact Text.trim_padded h.before h.item.2.2 h.ne_nil h.after

theorem Spaced.comma_notMem (h : e.Spaced) : ',' ∉ e.text.toList := by
  have hblank : ¬Text.isBlank ',' := by decide
  rw [text, String.toList_append, String.toList_append]
  intro hc
  rcases List.mem_append.1 hc with hc | hc
  · rcases List.mem_append.1 hc with hc | hc
    · exact hblank (h.before _ hc)
    · exact h.item.2.1 hc
  · exact hblank (h.after _ hc)

theorem Spaced.namesIn_text (h : e.Spaced) : namesIn [e.text.toList] = [e.name] := by
  rw [namesIn, List.map_singleton, h.trim_text, List.filter_cons_of_pos (by simpa using h.ne_nil), List.filter_nil,
    List.map_singleton, String.ofList_toList]

end Entry

theorem namesIn_entries : ∀ entries : List Entry, (∀ e ∈ entries, e.Spaced) →
    namesIn (entries.map (·.text.toList)) = entries.map (·.name) := by
  intro entries
  induction entries with
  | nil => intro _; rfl
  | cons e rest ih =>
    intro h
    have hfirst := (h e List.mem_cons_self).namesIn_text
    have hrest := ih fun e' hm => h e' (List.mem_cons_of_mem _ hm)
    rw [List.map_cons, ← List.singleton_append, namesIn_append, hfirst, hrest, List.singleton_append, List.map_cons]

/-- **Names come back from the text that lists them**, whatever blanks are around them. -/
theorem parseNames_entries {entries : List Entry} (h : ∀ e ∈ entries, e.Spaced) :
    parseNames (",".intercalate (entries.map Entry.text)) = entries.map (·.name) := by
  by_cases hnil : entries = []
  · subst hnil
    rfl
  · have hpieces : ∀ piece ∈ entries.map (·.text.toList), ',' ∉ piece := by
      intro piece hpiece
      obtain ⟨e, he, rfl⟩ := List.mem_map.1 hpiece
      exact (h e he).comma_notMem
    have hlisting : (",".intercalate (entries.map Entry.text)).toList =
        [','].intercalate (entries.map (·.text.toList)) := by
      rw [String.toList_intercalate, List.map_map]
      rfl
    rw [parseNames_eq, hlisting, List.splitOn_intercalate ',' hpieces (by simpa using hnil), namesIn_entries entries h]

/-- **A list of texts comes back exactly if each can be listed.** -/
theorem parseNames_intercalate_iff : parseNames (",".intercalate names) = names ↔ ∀ name ∈ names, IsItem name := by
  refine ⟨fun h name hm => isItem_of_mem_parseNames (h.symm ▸ hm), fun h => ?_⟩
  -- the names with nothing around them
  have hspaced : ∀ e ∈ names.map (Entry.mk "" · ""), e.Spaced := by
    intro e he
    obtain ⟨name, hm, rfl⟩ := List.mem_map.1 he
    exact ⟨nofun, h name hm, nofun⟩
  have hnames := parseNames_entries hspaced
  simpa [Function.comp_def, Entry.text] using hnames

end Config

/-- **A text with commas is a list of names.** Each name that it lists is not empty, has no comma in it and no blank at
an end. What stands before a comma and what stands after it are lists by themselves. Such names come back in order from
the text that they are joined to, with any blanks around them; and without blanks around, such names alone do.

So the names that are listed, joined with commas, list the same names again, and configure the same. -/
theorem lists_parse_back :
    (∀ listing, ∀ name ∈ Config.parseNames listing, name ≠ "" ∧ ',' ∉ name.toList ∧
        (∀ c ∈ name.toList.head?, Text.isBlank c = false) ∧ ∀ c ∈ name.toList.getLast?, Text.isBlank c = false) ∧
      (∀ a b, Config.parseNames (a ++ "," ++ b) = Config.parseNames a ++ Config.parseNames b) ∧
      (∀ entries : List Config.Entry, (∀ e ∈ entries, e.Spaced) →
        Config.parseNames (",".intercalate (entries.map Config.Entry.text)) = entries.map (·.name)) ∧
      (∀ names, Config.parseNames (",".intercalate names) = names ↔ ∀ name ∈ names, Config.IsItem name) ∧
      (∀ listing, Config.parseNames (",".intercalate (Config.parseNames listing)) = Config.parseNames listing) ∧
      ∀ listing, Config.ofText (",".intercalate (Config.ofText listing).enabled) = Config.ofText listing := by
  have hagain : ∀ listing, Config.parseNames (",".intercalate (Config.parseNames listing)) =
      Config.parseNames listing := fun listing =>
    Config.parseNames_intercalate_iff.2 fun name => Config.isItem_of_mem_parseNames
  refine ⟨fun listing name => Config.isItem_of_mem_parseNames, Config.parseNames_append,
    fun entries => Config.parseNames_entries, fun names => Config.parseNames_intercalate_iff, hagain, fun listing => ?_⟩
  rw [Config.ofText, Config.ofText, hagain]

/-- Two names come back from among blanks of many kinds, those in the middle of a name with it. What is left empty is
no name, and a text with a comma does not come back as one. -/
theorem lists_parse_back_blanks :
    Config.parseNames " RS 6\u3000,\u2003\tüber\u00A0-2\r\n" = ["RS 6", "über\u00A0-2"] ∧
      Config.parseNames (" , ,RS 6" ++ "," ++ ",,XOR ,") = ["RS 6", "XOR"] ∧
      Config.parseNames (",".intercalate ["RS 6", "XOR"]) = ["RS 6", "XOR"] ∧
      Config.parseNames (",".intercalate ["RS 6", "X,OR"]) ≠ ["RS 6", "X,OR"] := by
  obtain ⟨-, happend, hentries, hlists, -, -⟩ := lists_parse_back
  refine ⟨?_, ?_, (hlists _).2 (by decide), fun h => ?_⟩
  · have hspaced : ∀ e ∈ [Config.Entry.mk " " "RS 6" "\u3000", ⟨"\u2003\t", "über\u00A0-2", "\r\n"⟩], e.Spaced := by
      intro e he
      rcases List.mem_pair.1 he with rfl | rfl
      · exact ⟨List.all_eq_true.1 (by decide), by decide, List.all_eq_true.1 (by decide)⟩
      · exact ⟨List.all_eq_true.1 (by decide), by decide, List.all_eq_true.1 (by decide)⟩
    exact hentries _ hspaced
  · have hfirst : Config.parseNames " , ,RS 6" = ["RS 6"] := by decide
    have hsecond : Config.parseNames ",,XOR ," = ["XOR"] := by decide
    rw [happend, hfirst, hsecond]
    rfl
  · exact absurd ((hlists _).1 h) (by decide)

end PolicyTree
