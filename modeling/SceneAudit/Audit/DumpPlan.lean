import SceneAudit.Files.OsPath
import SceneAudit.Text.Lossy

/-! # Where dumps go

The dump of a scene is named after the scene's file name, as far as that is text. Of several scenes
with one dump path the first gets it and the others get none.
-/

namespace SceneAudit.DumpPlan

/-- The path of the dump of a scene. -/
def target? (output : OsPath) (suffix : Text) (scene : OsPath) : Option OsPath :=
  (OsPath.fileName? scene).map fun name =>
    OsPath.join output (Utf8.encode (Utf8.decodeLossy name ++ '.' :: suffix))

/-- Give each scene in order what it asks for, unless that is taken; `taken` holds what was given
out before. -/
def assign {Scene Dump : Type} (target? : Scene → Option Dump) (same : Dump → Dump → Bool)
    (taken : List Dump) : List Scene → List (Option Dump)
  | [] => []
  | scene :: scenes =>
    match target? scene with
    | none => none :: assign target? same taken scenes
    | some dump =>
      if taken.any (same dump) then none :: assign target? same taken scenes
      else some dump :: assign target? same (dump :: taken) scenes

def plan (output : OsPath) (suffix : Text) (scenes : List OsPath) : List (Option OsPath) :=
  assign (target? output suffix) OsPath.same [] scenes

/-- The plan for scenes and an output directory whose paths are texts; so are those of the dumps. -/
def ofTexts (output suffix : Text) (scenes : List Text) : List (Option Text) :=
  (plan (Utf8.encode output) suffix (scenes.map Utf8.encode)).map (Option.map Utf8.decodeLossy)

end SceneAudit.DumpPlan
