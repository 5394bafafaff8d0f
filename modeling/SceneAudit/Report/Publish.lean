import SceneAudit.Report.Csv
import SceneAudit.Report.JsonReport
import SceneAudit.Report.Terminal

/-! # Publishing a report

The summary of unused scripts is always written, the JSON file only where one is asked for, and the
lines for the terminal come last. The first failure ends the publication.
-/

namespace SceneAudit

/-- Where and how a report is published. -/
structure Publication where
  /-- Path of the summary of unused scripts. -/
  csvPath : Text
  jsonPath : Option Text
  /-- Lines for the terminal are wanted. -/
  terminal : Bool
  color : Bool
  deriving DecidableEq, Repr

/-- Why a report cannot be published. -/
inductive PublishError where
  | csv (path : Text)
  | json (fault : Fault)
  deriving DecidableEq, Repr

def PublishError.message : PublishError → Text
  | .csv path => "Failed to create ".toList ++ path
  | .json fault => fault.message

namespace Publication

def writeCsv (p : Publication) (tree : FileTree) (r : AuditReport) :
    Except PublishError FileTree :=
  match tree.write p.csvPath (Utf8.encode (Csv.render r.unused)) with
  | .ok tree => .ok tree
  | .error _ => .error (.csv p.csvPath)

def writeJson (p : Publication) (tree : FileTree) (root : Text) (r : AuditReport) :
    Except PublishError FileTree :=
  match p.jsonPath with
  | none => .ok tree
  | some path =>
    match tree.write path (Utf8.encode (JsonReport.render root r)) with
    | .ok tree => .ok tree
    | .error fault => .error (.json fault)

/-- Publish a report: the tree with what was written, and the lines for the terminal or the failure
that ended the publication. -/
def publish (p : Publication) (tree : FileTree) (root : Text) (r : AuditReport) :
    FileTree × Except PublishError Text :=
  match p.writeCsv tree r with
  | .error e => (tree, .error e)
  | .ok tree =>
    match p.writeJson tree root r with
    | .error e => (tree, .error e)
    | .ok tree => (tree, .ok (if p.terminal then Terminal.render p.color r else []))

end Publication

end SceneAudit
