import PolicyTree.Text.Blank

/-!
# Configuration

* `Config.parseNames`: the policy names in a comma-separated text.
* `Config.ofText`: the configuration that such a text gives.
-/

namespace PolicyTree

/-- Which policies start out enabled, and whether access is checked. -/
structure Config where
  enabled : List String
  permissions : Bool
  deriving DecidableEq, Repr

namespace Config

/-- **The names in a comma-separated text**: blanks around a name are dropped, and so are names
with nothing left. -/
def parseNames (text : String) : List String :=
  (((text.toList.splitOn ',').map Text.trim).filter (!·.isEmpty)).map String.ofList

/-- The policies named in a text, with access checked. -/
def ofText (text : String) : Config := ⟨parseNames text, true⟩

/-- The configuration where none is given. -/
def default : Config := ofText "RS-6-3-1024k"

end Config

end PolicyTree
