import PolicyTree.Error

/-!
# Paths

A path is a text; its meaning is the list of names from the root down.

* `Path.IsName`: what may stand between two slashes of a canonical path.
* `Path.normalize`: the names in an absolute path. Empty segments and `.` are skipped, and `..`
  takes the last name away again; there is nothing above the root.
* `Path.join`: the canonical path of a list of names.
-/

namespace PolicyTree.Path

/-- A text that can name a node: not empty, without a slash, and neither `.` nor `..`. -/
def IsName (name : String) : Prop :=
  name ≠ "" ∧ '/' ∉ name.toList ∧ name ≠ "." ∧ name ≠ ".."

instance (name : String) : Decidable (IsName name) := inferInstanceAs (Decidable (_ ∧ _))

/-- The texts between the slashes. -/
def segments (cs : List Char) : List String := (cs.splitOn '/').map String.ofList

/-- One segment further from where the names so far lead, the deepest name first; `none` above the
root. -/
def enter (names : List String) (segment : String) : Option (List String) :=
  if segment = "" ∨ segment = "." then some names
  else if segment = ".." then
    match names with
    | [] => none
    | _ :: above => some above
  else some (segment :: names)

/-- **The names in an absolute path**, from the root down. -/
def normalize (path : String) : Except Error (List String) :=
  match path.toList with
  | '/' :: rest =>
    match (segments rest).foldlM enter [] with
    | some names => .ok names.reverse
    | none => .error (.pathEscapesRoot path)
  | _ => .error (.relativePath path)

/-- **The canonical path of a list of names**: a slash before each, or the root's lone slash. -/
def join (names : List String) : String :=
  if names.isEmpty then "/" else String.ofList (names.flatMap fun name => '/' :: name.toList)

end PolicyTree.Path
