import SceneAudit.Text.Order

/-! # Unused scripts

A script is named by its path from the project root and by its identifier. Unused scripts are listed
by path as a text, and equal paths by identifier.
-/

namespace SceneAudit

/-- A registered script that no component uses. -/
structure UnusedScript where
  /-- Path from the project root with forward slashes. -/
  relativePath : Text
  identifier : Text
  deriving DecidableEq, Repr

namespace UnusedScript

def le (a b : UnusedScript) : Bool :=
  match Text.compare a.relativePath b.relativePath with
  | .lt => true
  | .gt => false
  | .eq => Text.le a.identifier b.identifier

end UnusedScript

end SceneAudit
