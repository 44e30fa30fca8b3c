import PolicyTree.Proofs.Files
import PolicyTree.Proofs.Namespace

/-!
# Spellings of a path

A path with `.`, `..` or slashes to spare means the same as its canonical form, and nothing that is done with
it tells them apart, but for the path that is quoted when a node cannot be made.

* `Tree.chain_congr`, `Call.resolve_congr`: two paths that normalise alike have the same chain, and lead a call
  to the same nodes.
* `Error.Respelt`: two errors that each quote their own spelling.
* `EndsAlike`, `run_makeUnder_alike`, `run_makeDirectoriesUnder_alike`: **a walk that quotes one path ends as
  the walk that quotes another**; one step is `childOf_alike`.
* `spelling_irrelevant`: **a path and its canonical form come to the same.**
-/

namespace PolicyTree

open MonadExcept (ofExcept)

variable {α : Type} {path path' : String}

/-- **Two errors read the same**, but that a path that is quoted is each time its own. -/
structure Error.Respelt (path path' : String) (e e' : Error) : Prop where
  kind : e'.report.kind = e.report.kind
  text : e'.report.text = e.report.text
  context : e.report.context = .nothing ∧ e'.report.context = .nothing ∨
    e.report.context = .path path ∧ e'.report.context = .path path'

/-- An error that quotes no path reads the same for every path. -/
theorem Error.Respelt.of_nothing {e : Error} (h : e.report.context = .nothing) : e.Respelt path path' e :=
  ⟨rfl, rfl, Or.inl ⟨h, h⟩⟩

/-- An error that quotes a path reads the same, but for the path. -/
theorem Error.Respelt.quoted {e : String → Error} {kind : ErrorKind} {text : String}
    (h : ∀ p, (e p).report = ⟨kind, text, .path p⟩) : (e path).Respelt path path' (e path') :=
  ⟨by rw [h, h], by rw [h, h], Or.inr ⟨by rw [h], by rw [h]⟩⟩

/-- **Two actions on the tree end alike**: with the same answer, or with errors that read the same; and with the
same tree. -/
inductive EndsAlike (path path' : String) :
    EStateM.Result Error Tree α → EStateM.Result Error Tree α → Prop
  | ok (a : α) (t : Tree) : EndsAlike path path' (.ok a t) (.ok a t)
  | error {e e' : Error} (h : e.Respelt path path' e') (t : Tree) : EndsAlike path path' (.error e t) (.error e' t)

/-- **Two answers about a new node are alike**: its id, or errors that read the same. -/
def MadeAlike (path path' : String) (a a' : Answer) : Prop :=
  (∃ id, a = .plain (.ok (.id id)) ∧ a' = .plain (.ok (.id id))) ∨
    ∃ e e', a = .plain (.error e) ∧ a' = .plain (.error e') ∧ e.Respelt path path' e'

/-! ## Calls -/

/-- **Paths that normalise alike have the same chain.** -/
theorem Tree.chain_congr (h : Path.normalize path = Path.normalize path') (t : Tree) :
    t.chain path = t.chain path' := by
  unfold Tree.chain; rw [h]

theorem Call.resolve_congr (h : Path.normalize path = Path.normalize path') : resolve path = resolve path' := by
  unfold resolve; simp only [Tree.chain_congr h]

theorem TreeQuery.answer_status_congr (h : Path.normalize path = Path.normalize path') (t : Tree) (r : Registry) :
    answer t r (.status path) = answer t r (.status path') := by
  simp only [answer, Tree.chain_congr h]

/-! ## Walks -/

namespace Tree

/-- One step of a walk ends alike, whatever path it quotes. -/
theorem childOf_alike (t : Tree) (dir : NodeId) (name path path' : String) :
    (∃ r, t.childOf dir name path = .ok r ∧ t.childOf dir name path' = .ok r) ∨
      ∃ e e', t.childOf dir name path = .error e ∧ t.childOf dir name path' = .error e' ∧
        e.Respelt path path' e' := by
  unfold childOf
  cases t.node? dir with
  | none => exact Or.inr ⟨_, _, rfl, rfl, .quoted fun _ => rfl⟩
  | some n =>
    cases hk : n.children? with
    | none => simp only [hk]; exact Or.inr ⟨_, _, rfl, rfl, .quoted fun _ => rfl⟩
    | some children => simp only [hk]; exact Or.inl ⟨_, rfl, rfl⟩

/-- What is inserted does not depend on a path. -/
theorem run_insert_alike (dir : NodeId) (name : String) (kind : NodeKind) (t : Tree) :
    EndsAlike path path' ((insert dir name kind).run t) ((insert dir name kind).run t) := by
  simp only [insert, EStateM.run_bind, EStateM.run_get]
  by_cases hdir : t.isDirectory dir
  · rw [if_pos hdir]; exact .ok _ _
  · rw [if_neg hdir]; exact .error (.of_nothing rfl) t

/-- **A walk to a new node ends alike**, whatever path it quotes. -/
theorem run_makeUnder_alike (path path' : String) (kind : NodeKind) (t : Tree) :
    ∀ (names : List String) (dir : NodeId),
      EndsAlike path path' ((makeUnder path kind dir names).run t) ((makeUnder path' kind dir names).run t) := by
  intro names
  induction names with
  | nil => intro dir; exact .error (.of_nothing rfl) t
  | cons name rest ih =>
    intro dir
    rcases t.childOf_alike dir name path path' with ⟨r, hr, hr'⟩ | ⟨e, e', he, he', halike⟩
    · cases rest with
      | nil =>
        cases r with
        | some id =>
          simp only [makeUnder, EStateM.run_bind, EStateM.run_get, hr, hr', run_ofExcept_ok, run_throw]
          exact .error (.quoted fun _ => rfl) t
        | none =>
          simp only [makeUnder, EStateM.run_bind, EStateM.run_get, hr, hr', run_ofExcept_ok]
          exact run_insert_alike dir name kind t
      | cons next rest =>
        cases r with
        | some id =>
          simp only [makeUnder, EStateM.run_bind, EStateM.run_get, hr, hr', run_ofExcept_ok]
          exact ih id
        | none =>
          simp only [makeUnder, EStateM.run_bind, EStateM.run_get, hr, hr', run_ofExcept_ok, run_throw]
          exact .error (.quoted fun _ => rfl) t
    · -- the walk ends here, under whatever names are left
      cases rest <;>
        simp only [makeUnder, EStateM.run_bind, EStateM.run_get, he, he', run_ofExcept_error] <;>
        exact .error halike t

/-- **A walk that makes directories ends alike**, whatever path it quotes. -/
theorem run_makeDirectoriesUnder_alike (path path' : String) : ∀ (names : List String) (dir : NodeId) (t : Tree),
    EndsAlike path path' ((makeDirectoriesUnder path dir names).run t)
      ((makeDirectoriesUnder path' dir names).run t) := by
  intro names
  induction names with
  | nil => intro dir t; exact .ok dir t
  | cons name rest ih =>
    intro dir t
    simp only [makeDirectoriesUnder, EStateM.run_bind, EStateM.run_get]
    rcases t.childOf_alike dir name path path' with ⟨r, hr, hr'⟩ | ⟨e, e', he, he', halike⟩
    · simp only [hr, hr', run_ofExcept_ok]
      cases r with
      | some id =>
        simp only [EStateM.run_bind, EStateM.run_get]
        by_cases hdir : t.isDirectory id
        · rw [if_pos hdir, if_pos hdir]; exact ih id t
        · rw [if_neg hdir, if_neg hdir]
          exact .error (.quoted fun _ => rfl) t
      | none =>
        obtain ⟨d, hd, hdir, -⟩ := childOf_ok hr
        simp only [EStateM.run_bind, run_insert hd hdir]
        exact ih t.size _
    · simp only [he, he', run_ofExcept_error]
      exact .error halike t

theorem run_make_alike {names : List String} (hp : Path.normalize path = .ok names)
    (hp' : Path.normalize path' = .ok names) (kind : NodeKind) (t : Tree) :
    EndsAlike path path' ((make path kind).run t) ((make path' kind).run t) := by
  simp only [make, EStateM.run_bind, hp, hp', run_ofExcept_ok]
  exact run_makeUnder_alike path path' kind t names root

theorem run_makeDirectories_alike {names : List String} (hp : Path.normalize path = .ok names)
    (hp' : Path.normalize path' = .ok names) (t : Tree) :
    EndsAlike path path' ((makeDirectories path).run t) ((makeDirectories path').run t) := by
  simp only [makeDirectories, EStateM.run_bind, hp, hp', run_ofExcept_ok]
  exact run_makeDirectoriesUnder_alike path path' names root t

end Tree

namespace Session

/-- Changes whose actions end alike are answered alike, and come to the same session. -/
theorem plain_alike {s : Session} {action action' : Tree.Edit NodeId}
    (h : EndsAlike path path' (action.run s.tree) (action'.run s.tree)) :
    (s.plain (Call.locked .write do return Value.id (← Call.edit action'))).2 =
        (s.plain (Call.locked .write do return Value.id (← Call.edit action))).2 ∧
      MadeAlike path path' (s.plain (Call.locked .write do return Value.id (← Call.edit action))).1
        (s.plain (Call.locked .write do return Value.id (← Call.edit action'))).1 := by
  rw [plain, plain, perform_edit, perform_edit]
  generalize action.run s.tree = result at h ⊢
  generalize action'.run s.tree = result' at h ⊢
  cases s.lock.acquire .write with
  | error why => exact ⟨rfl, Or.inr ⟨_, _, rfl, rfl, .of_nothing rfl⟩⟩
  | ok lock =>
    cases h with
    | ok id t => exact ⟨rfl, Or.inl ⟨id, rfl, rfl⟩⟩
    | error h t => exact ⟨rfl, Or.inr ⟨_, _, rfl, rfl, h⟩⟩

/-- **A path and its canonical form come to the same.** Each of the four calls, and the question for a status,
has the same answer and shows the same to the collaborators, and leads to the same session, log included. So
does making a directory, directories, a file or a link; if it fails, the errors read the same, but that each
quotes the path that it was given. -/
theorem spelling_irrelevant (s : Session) {names : List String} (hp : Path.normalize path = .ok names) :
    (∀ name retry, s.step (.assignPolicy path name retry) = s.step (.assignPolicy (Path.join names) name retry)) ∧
      (∀ retry, s.step (.unassignPolicy path retry) = s.step (.unassignPolicy (Path.join names) retry)) ∧
      s.step (.policyInForce path) = s.step (.policyInForce (Path.join names)) ∧
      s.step (.isCovered path) = s.step (.isCovered (Path.join names)) ∧
      s.step (.query (.status path)) = s.step (.query (.status (Path.join names))) ∧
      ∀ (policyId : Int8) (target : String), ∀ make ∈ [TreeChange.makeDirectory, .makeDirectories,
          (.makeFile · policyId), (.makeLink · target)],
        (s.step (.change (make (Path.join names)))).2 = (s.step (.change (make path))).2 ∧
          MadeAlike path (Path.join names) (s.step (.change (make path))).1
            (s.step (.change (make (Path.join names)))).1 := by
  have hp' : Path.normalize (Path.join names) = .ok names := Path.normalize_join (Path.isName_of_normalize hp)
  have hsame : Path.normalize path = Path.normalize (Path.join names) := hp.trans hp'.symm
  have hresolve : Call.resolve path = Call.resolve (Path.join names) := Call.resolve_congr hsame
  refine ⟨fun name retry => ?_, fun retry => ?_, ?_, ?_, ?_, fun policyId target make hmake => ?_⟩
  · simp only [step, Call.assignPolicy, hresolve]
  · simp only [step, Call.unassignPolicy, hresolve]
  · simp only [step, Call.policyInForce, hresolve]
  · simp only [step, Call.isCovered, hresolve]
  · simp only [step, TreeQuery.answer_status_congr hsame]
  · simp only [List.mem_cons, List.not_mem_nil, or_false] at hmake
    simp only [step]
    rcases hmake with rfl | rfl | rfl | rfl
    · exact plain_alike (Tree.run_make_alike hp hp' .emptyDirectory s.tree)
    · exact plain_alike (Tree.run_makeDirectories_alike hp hp' s.tree)
    · exact plain_alike (Tree.run_make_alike hp hp' (.file policyId) s.tree)
    · exact plain_alike (Tree.run_make_alike hp hp' (.link target) s.tree)

/-- A roundabout path to the file: a policy cannot be assigned there, and no directory can be made. -/
theorem spelling_irrelevant_furnished :
    Path.normalize "/b//c/../a/" = .ok ["b", "a"] ∧ Path.join ["b", "a"] = "/b/a" ∧
      furnished.step (.assignPolicy "/b//c/../a/" "RS-6-3-1024k" none) =
        furnished.step (.assignPolicy "/b/a" "RS-6-3-1024k" none) ∧
      furnished.step (.query (.status "/b//c/../a/")) = furnished.step (.query (.status "/b/a")) ∧
      (furnished.step (.change (.makeDirectory "/b//c/../a/"))).1 =
        .plain (.error (.pathExists "/b//c/../a/")) ∧
      MadeAlike "/b//c/../a/" "/b/a" (furnished.step (.change (.makeDirectory "/b//c/../a/"))).1
        (furnished.step (.change (.makeDirectory "/b/a"))).1 := by
  have hp : Path.normalize "/b//c/../a/" = .ok ["b", "a"] := rfl
  have hjoin : Path.join ["b", "a"] = "/b/a" := rfl
  obtain ⟨hassign, -, -, -, hstatus, hmade⟩ := spelling_irrelevant furnished hp
  rw [hjoin] at hassign hstatus hmade
  have halike := (hmade 0 "" TreeChange.makeDirectory List.mem_cons_self).2
  exact ⟨hp, hjoin, hassign _ _, hstatus, rfl, halike⟩

end Session

end PolicyTree
