import PolicyTree.Config
import PolicyTree.Error
import PolicyTree.Policy
import PolicyTree.Sorted

/-!
# The registry of policies

The known policies, each under an id, and beside them the set of the ids that are enabled. A policy is found by its
name among the known ones; what is done to it is done to its id.

* `Registry.add`, `Registry.enable`, `Registry.disable`: the changes.
* `Registry.byId?`, `Registry.enabledNamed?`, `Registry.listEnabled`: the look-ups.
* `Registry.ofConfig`: the registry that a configuration starts with.
* `Registry.step`, `Registry.run`: operations as data.
-/

namespace PolicyTree

/-- The known policies, and the ids that are enabled. That they fit together is no part of it. -/
structure Registry where
  known : IdMap Policy
  enabled : IdSet
  deriving DecidableEq, Repr

namespace Registry

/-- The system policies, none of them enabled. -/
def system : Registry := ⟨.ofList (systemPolicies.map fun p => (p.id, p)), .empty⟩

/-- All known policies, by increasing id. -/
def policies (r : Registry) : List Policy := r.known.values

/-- The policy that is known under an id, enabled or not. -/
def byId? (r : Registry) (id : UInt8) : Option Policy := r.known.find? id

/-- The first known policy of a name. -/
def named? (r : Registry) (name : String) : Option Policy := r.policies.find? (·.name == name)

/-- The ids that are enabled, in increasing order. -/
def enabledIds (r : Registry) : List UInt8 := r.enabled.ids

/-- The policies that are known under the enabled ids, by increasing id. -/
def listEnabled (r : Registry) : List Policy := r.enabledIds.filterMap r.byId?

/-- The names of the enabled policies, by increasing id. -/
def enabledNames (r : Registry) : List String := r.listEnabled.map Policy.name

/-- The policy of a name, if its id is enabled. -/
def enabledNamed? (r : Registry) (name : String) : Option Policy :=
  (r.named? name).filter fun p => r.enabled.contains p.id

/-- The error that names the enabled policies in place of the requested one. -/
def notEnabled (r : Registry) (name : String) : Error := .policyNotEnabled name r.enabledNames

/-- The enabled policy of a name, which must be there. -/
def require (r : Registry) (name : String) : Except Error Policy :=
  match r.enabledNamed? name with
  | some p => .ok p
  | none => .error (r.notEnabled name)

/-- Makes a policy known under its id, if the id and the name are free. What is enabled stays. -/
def add (r : Registry) (p : Policy) : Except Error Registry :=
  if r.known.contains p.id || (r.named? p.name).isSome then .error .policyRegistered
  else .ok { r with known := r.known.insert p.id p }

/-- Puts an id among the enabled ones, or takes it away. -/
def switch (r : Registry) (id : UInt8) (enabled : Bool) : Registry :=
  { r with enabled := if enabled then r.enabled.insert id () else r.enabled.erase id }

/-- Switches the id of the policy of a name on or off, and tells whether it was enabled. -/
def switchNamed (r : Registry) (name : String) (enabled : Bool) : Except Error (Bool × Registry) :=
  match r.named? name with
  | some p => .ok (r.enabled.contains p.id, r.switch p.id enabled)
  | none => .error (r.notEnabled name)

/-- Enables the policy of a name; one that is enabled stays so. -/
def enable (r : Registry) (name : String) : Except Error Registry := (r.switchNamed name true).map (·.2)

/-- Disables the policy of a name, and tells whether it was enabled. -/
def disable (r : Registry) (name : String) : Except Error (Bool × Registry) := r.switchNamed name false

/-- **The registry of a configuration**: the system policies, with the configured ones enabled. -/
def ofConfig (config : Config) : Except Error Registry := config.enabled.foldlM enable system

/-- An operation on the registry. -/
inductive Op where
  | add (p : Policy)
  | enable (name : String)
  | disable (name : String)
  | enabledNamed (name : String)
  | byId (id : UInt8)
  | require (name : String)
  | enabled
  | all
  deriving DecidableEq, Repr

/-- The answer to an operation that succeeds. -/
inductive Answer where
  | done
  | was (enabled : Bool)
  | found (p : Option Policy)
  | policy (p : Policy)
  | enabled (policies : List Policy) (names : List String)
  | all (policies : List Policy)
  deriving DecidableEq, Repr

/-- One operation: its answer and the registry after it. One that fails changes nothing. -/
def step (r : Registry) : Op → Except Error Answer × Registry
  | .add p =>
    match r.add p with
    | .ok r' => (.ok .done, r')
    | .error e => (.error e, r)
  | .enable name =>
    match r.enable name with
    | .ok r' => (.ok .done, r')
    | .error e => (.error e, r)
  | .disable name =>
    match r.disable name with
    | .ok (was, r') => (.ok (.was was), r')
    | .error e => (.error e, r)
  | .enabledNamed name => (.ok (.found (r.enabledNamed? name)), r)
  | .byId id => (.ok (.found (r.byId? id)), r)
  | .require name => ((r.require name).map .policy, r)
  | .enabled => (.ok (.enabled r.listEnabled r.enabledNames), r)
  | .all => (.ok (.all r.policies), r)

/-- The answers to a sequence of operations, and the registry after them. -/
def run (r : Registry) : List Op → List (Except Error Answer) × Registry
  | [] => ([], r)
  | op :: rest =>
    let (answer, r') := r.step op
    let (answers, r'') := r'.run rest
    (answer :: answers, r'')

end Registry

end PolicyTree
