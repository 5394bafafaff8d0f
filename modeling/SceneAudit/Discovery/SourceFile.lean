import SceneAudit.Config.Basic
import SceneAudit.Files.Path

/-! # Source files

The extension of a file decides what it is to a run: a scene, a script or nothing.
-/

namespace SceneAudit

/-- What a file of a project is to a run. -/
inductive FileType where
  | scene
  | script
  deriving DecidableEq, Repr

namespace FileType

/-- The type of the file at a path. An extension that is configured for both is a scene's. -/
def ofPath? (config : Config) (path : Text) : Option FileType :=
  match Path.extension? path with
  | none => none
  | some ext =>
    if config.sceneExtensions.contains ext then some .scene
    else if config.scriptExtensions.contains ext then some .script
    else none

end FileType

/-- A file of a project. -/
structure SourceFile where
  path : Text
  type : FileType
  deriving DecidableEq, Repr

namespace SourceFile

def sidecarPath (path suffix : Text) : Text :=
  path ++ '.' :: suffix

def sidecar (file : SourceFile) (suffix : Text) : Text :=
  sidecarPath file.path suffix

end SourceFile

end SceneAudit
