import SceneAudit.Text.Blank

/-! # Simple type names

A base list entry counts under the last identifier of its name, without type arguments.
-/

namespace SceneAudit.TypeName

def isQualifierEnd (c : Char) : Bool :=
  c == '.' || c == ':'

/-- The text up to the first `<`, from its last qualifier on, without white space around it. -/
def simple (text : Text) : Text :=
  let name := text.takeWhile (· ≠ '<')
  Text.trim (name.reverse.takeWhile fun c => !isQualifierEnd c).reverse

end SceneAudit.TypeName
