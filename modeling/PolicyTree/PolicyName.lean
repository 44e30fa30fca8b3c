import PolicyTree.Attribute
import PolicyTree.Text.Utf8
import PolicyTree.Varint

/-!
# Policy names in attributes

A directory names its policy in one attribute. The value is the length of the name in bytes, as a
variable-length integer, and then the name in UTF-8, with nothing after it.

* `PolicyName.encode`, `PolicyName.decode`: the value for a name, the name in a value.
* `PolicyName.toAttribute`, `PolicyName.ofAttribute`: the same for the whole attribute.
-/

namespace PolicyTree.PolicyName

/-- The name of the attribute that holds a policy's name. -/
def key : String := "erasurecoding.policy"

/-- **The value for a name.** -/
def encode (name : String) : List UInt8 :=
  let bytes := Text.utf8 name
  Varint.encode (Int64.ofNat bytes.length) ++ bytes

/-- **The name in a value.** -/
def decode (value : List UInt8) : Except Error String := do
  let (length, size) ← Varint.decodeShort value
  if length < 0 then throw (.corrupt .negativeLength)
  let rest := value.drop size
  let length := length.toInt.toNat
  if rest.length < length then throw (.corrupt .shortName)
  if length < rest.length then throw (.corrupt .trailingBytes)
  match Text.ofUtf8? rest with
  | some name => return name
  | none => throw (.corrupt .notText)

/-- The attribute that names a policy. -/
def toAttribute (name : String) : Attribute := ⟨key, encode name⟩

/-- The policy name in an attribute, which must be the policy attribute. -/
def ofAttribute (a : Attribute) : Except Error String :=
  if a.name = key then decode a.value else .error .foreignAttribute

end PolicyTree.PolicyName
