/-
# Names of nodes

A node may be named by a number, a text, a truth value, or by nothing; two names are the same if
they are equal as values: `1`, `1.0` and `true` name the same node, and `"1"` another.  A number
without a value is the same name as itself only.  A `Key` is that equality made definite: values
with equal keys are the same name.

Lists and objects name nothing (`Value.key`).  `lookup` in an association list of keys is the
search for a name throughout; it is what the proofs reason about and it is short.
-/
import SampledProfile.Value.Basic

namespace SampledProfile

/-- What makes two names the same. -/
inductive Key where
  | null
  | number (value : Magnitude)
  | text (value : String)
  deriving DecidableEq

variable {α : Type} [Scalar α]

/-- The key of a value that can be a name. -/
def Value.key : Value α → Except Fault Key
  | .null => .ok .null
  | .bool value => .ok (.number (.finite (if value then 1 else 0)))
  | .num value => .ok (.number (Scalar.exact value))
  | .str text => .ok (.text text)
  | .list _ => .error .wrongType
  | .obj _ => .error .wrongType

/-- What stands under a key. -/
def Key.lookup {β : Type} (key : Key) : List (Key × β) → Option β
  | [] => none
  | (other, value) :: rest => if other = key then some value else lookup key rest

end SampledProfile
