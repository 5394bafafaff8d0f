import SceneAudit.Text.Blank
import SceneAudit.Yaml.Value

/-! # References between blocks

A reference is a mapping with a key `fileID`. A reference that is absent or not of this form refers
to nothing.
-/

namespace SceneAudit.Scene

open Yaml (Value)

/-- The anchor that refers to nothing; a transform with this parent is a root. -/
def noAnchor : Text :=
  ['0']

/-- The anchor that the value of `fileID` spells, if it is an integer or a string of one. -/
def anchorOfId? : Value → Option Text
  | .scalar (.integer n) => some (Text.ofInt n)
  | .scalar (.string t) => (Text.readInt64? (Text.trim t)).map Text.ofInt
  | _ => none

def referencedAnchor (value : Option Value) : Text :=
  ((value.bind (Value.get? "fileID".toList)).bind anchorOfId?).getD noAnchor

end SceneAudit.Scene
