import SceneAudit.Text.LowerCase

/-! # Member names

Serialized fields and declared members are compared in one spelling: without the `m_` in front,
without underscores in front, in lower case.
-/

namespace SceneAudit.MemberName

def withoutMark (name : Text) : Text :=
  (Text.dropStart? ['m', '_'] name).getD name

/-- The spelling under which names are compared. -/
def normalize (name : Text) : Text :=
  Text.lower ((withoutMark name).dropWhile (· = '_'))

end SceneAudit.MemberName
