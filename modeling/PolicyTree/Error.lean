/-!
# Errors

Every failure is a cause: a constructor of `Error` that carries what the caller needs to name the
trouble. How a cause reads is decided in one place.

* `Error.report`: the kind, the fixed text and the context of a cause.
* `Report.message`: the sentence shown for a report.
-/

namespace PolicyTree

/-- The broad kind of a failure. -/
inductive ErrorKind where
  | notFound
  | notADirectory
  | invalidPolicy
  | corruptAttribute
  | accessDenied
  | alreadyExists
  | invalidInput
  | lockFailed
  deriving DecidableEq, Repr

/-- The word for a kind, as it starts a message. -/
def ErrorKind.name : ErrorKind → String
  | .notFound => "NotFound"
  | .notADirectory => "NotADirectory"
  | .invalidPolicy => "InvalidPolicy"
  | .corruptAttribute => "CorruptAttribute"
  | .accessDenied => "AccessDenied"
  | .alreadyExists => "AlreadyExists"
  | .invalidInput => "InvalidInput"
  | .lockFailed => "LockFailed"

/-- What is wrong with bytes that should hold an encoded policy name. -/
inductive Corruption where
  /-- There is no byte where a number should start. -/
  | noInteger
  /-- The bytes end inside a number. -/
  | truncatedInteger
  /-- A number is not written in its one shortest form. -/
  | paddedInteger
  /-- A number lies outside 32 bits. -/
  | wideInteger
  | negativeLength
  | shortName
  | trailingBytes
  /-- The name's bytes are not UTF-8. -/
  | notText
  deriving DecidableEq, Repr

/-- Why a lock was not granted. -/
inductive Refusal where
  /-- A reader meets a writer. -/
  | heldForWriting
  /-- A writer meets any other holder. -/
  | held
  | poisonedForReading
  | poisonedForWriting
  deriving DecidableEq, Repr

/-- The cause of a failure. -/
inductive Error where
  | corrupt (fault : Corruption)
  /-- An attribute of another name was offered as the policy attribute. -/
  | foreignAttribute
  | attributeExists
  | attributeMissing
  | relativePath (path : String)
  | pathEscapesRoot (path : String)
  | policyRegistered
  /-- No enabled policy has the requested name; the enabled ones are listed. -/
  | policyNotEnabled (requested : String) (enabled : List String)
  | rootExists
  /-- A node on the way, or the last one where a directory is wanted, is none. -/
  | componentNotDirectory (path : String)
  | parentMissing (path : String)
  | pathExists (path : String)
  | nodeMissing
  /-- A walk arrived at an id that names no node. -/
  | danglingNode (path : String)
  /-- A node was to be put under something that is no directory. -/
  | parentNotDirectory
  | targetMissing (path : String)
  | assignToNonDirectory (path : String)
  | unassignFromNonDirectory (path : String)
  | lockRefused (why : Refusal)
  /-- A permission checker turned the access down, with a kind of its own choice. -/
  | denied (kind : ErrorKind) (path : String)
  deriving DecidableEq, Repr

/-- What a report carries beside its fixed text. -/
inductive Context where
  | nothing
  | path (path : String)
  | policy (requested : String) (enabled : List String)
  deriving DecidableEq, Repr

/-- An error as it is shown. -/
structure Report where
  kind : ErrorKind
  text : String
  context : Context
  deriving DecidableEq, Repr

/-- The configuration key that says which policies are enabled. -/
def enabledPoliciesKey : String := "dfs.namenode.ec.policies.enabled"

namespace Report

/-- The report that a requested policy is not among the enabled ones. -/
def policyNotEnabled (requested : String) (enabled : List String) : Report where
  kind := .invalidPolicy
  text := "policy does not match any enabled erasure coding policies"
  context := .policy requested enabled

/-- **The sentence for a report**: kind and text, then the path if there is one. A policy that is
not enabled has a sentence of its own, which lists the enabled ones and names the key to change. -/
def message (r : Report) : String :=
  match r.context with
  | .nothing => r.kind.name ++ ": " ++ r.text
  | .path path => r.kind.name ++ ": " ++ r.text ++ ": " ++ path
  | .policy requested enabled =>
    "Policy '" ++ requested ++ "' does not match any enabled erasure coding policies: ["
      ++ String.intercalate ", " enabled
      ++ "]. The set of enabled erasure coding policies can be configured at '"
      ++ enabledPoliciesKey ++ "'."

/-- The path that a report carries. -/
def path? (r : Report) : Option String :=
  match r.context with
  | .path path => some path
  | _ => none

/-- The enabled policies that a report carries. -/
def enabled? (r : Report) : Option (List String) :=
  match r.context with
  | .policy _ enabled => some enabled
  | _ => none

end Report

/-- The text for damaged bytes. -/
def Corruption.text : Corruption → String
  | .noInteger => "empty buffer where a variable-length integer was expected"
  | .truncatedInteger => "truncated variable-length integer"
  | .paddedInteger => "variable-length integer is not minimally encoded"
  | .wideInteger => "variable-length integer too long to fit in i32"
  | .negativeLength => "negative policy name length"
  | .shortName => "policy name shorter than its declared length"
  | .trailingBytes => "trailing bytes after policy name"
  | .notText => "policy name is not valid UTF-8"

/-- The text for a refused lock. -/
def Refusal.text : Refusal → String
  | .heldForWriting => "tree is mutably borrowed"
  | .held => "tree is already borrowed"
  | .poisonedForReading => "Failed to acquire read lock"
  | .poisonedForWriting => "Failed to acquire write lock"

namespace Error

/-- **How a cause is reported.** -/
def report : Error → Report
  | .corrupt fault => ⟨.corruptAttribute, fault.text, .nothing⟩
  | .foreignAttribute => ⟨.invalidInput, "not an erasure coding policy xattr", .nothing⟩
  | .attributeExists =>
    ⟨.alreadyExists, "xattr already exists and REPLACE was not requested", .nothing⟩
  | .attributeMissing =>
    ⟨.notFound, "xattr does not exist and CREATE was not requested", .nothing⟩
  | .relativePath path => ⟨.invalidInput, "path must be absolute", .path path⟩
  | .pathEscapesRoot path => ⟨.invalidInput, "path escapes the root directory", .path path⟩
  | .policyRegistered => ⟨.alreadyExists, "erasure coding policy already registered", .nothing⟩
  | .policyNotEnabled requested enabled => .policyNotEnabled requested enabled
  | .rootExists => ⟨.alreadyExists, "root directory already exists", .nothing⟩
  | .componentNotDirectory path =>
    ⟨.notADirectory, "path component is not a directory", .path path⟩
  | .parentMissing path => ⟨.notFound, "parent directory not found", .path path⟩
  | .pathExists path => ⟨.alreadyExists, "path already exists", .path path⟩
  | .nodeMissing => ⟨.notFound, "inode not found", .nothing⟩
  | .danglingNode path => ⟨.notFound, "inode not found", .path path⟩
  | .parentNotDirectory => ⟨.notADirectory, "parent is not a directory", .nothing⟩
  | .targetMissing path => ⟨.notFound, "Path not found", .path path⟩
  | .assignToNonDirectory path =>
    ⟨.notADirectory, "Attempt to set an erasure coding policy for a file", .path path⟩
  | .unassignFromNonDirectory path =>
    ⟨.notADirectory, "Cannot unset an erasure coding policy on a file", .path path⟩
  | .lockRefused why => ⟨.lockFailed, why.text, .nothing⟩
  | .denied kind path => ⟨kind, "Permission denied", .path path⟩

/-- The kind of a cause. -/
def kind (e : Error) : ErrorKind := e.report.kind

end Error

end PolicyTree
