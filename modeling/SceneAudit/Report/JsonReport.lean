import SceneAudit.Audit.Report
import SceneAudit.Json.Value

/-! # The report as JSON

The findings of a run as one object: unused scripts, scenes, skipped scenes and a summary.
-/

namespace SceneAudit.JsonReport

open Json (Value)

def version : Text :=
  "0.1.0".toList

def object (entries : List (String × Value)) : Value :=
  .object (entries.map fun (k, v) => (k.toList, v))

def ofUnused (s : UnusedScript) : Value :=
  object [("relative_path", .string s.relativePath), ("guid", .string s.identifier)]

def ofScene (root : Text) (s : SceneSummary) : Value :=
  object
    [("scene", .string (Path.relativeTo root s.scene)), ("objects", .number s.objects),
      ("components", .number s.behaviors), ("malformed_blocks", .number s.malformed),
      ("cycles", .number s.cycles)]

def ofFailure (root : Text) (f : SceneFailure) : Value :=
  object [("scene", .string (Path.relativeTo root f.scene)), ("reason", .string f.reason)]

def ofCounts (r : AuditReport) : Value :=
  object
    [("scripts_found", .number r.scriptsFound), ("scripts_registered", .number r.scriptsRegistered),
      ("scripts_used", .number r.usedCount), ("scripts_unused", .number r.unused.length),
      ("scenes_processed", .number r.scenesProcessed), ("scenes_failed", .number r.failures.length)]

def ofReport (root : Text) (r : AuditReport) : Value :=
  object
    [("version", .string version), ("unused", .array (r.unused.map ofUnused)),
      ("scenes", .array (r.scenes.map (ofScene root))),
      ("failed_scenes", .array (r.failures.map (ofFailure root))), ("summary", ofCounts r)]

def render (root : Text) (r : AuditReport) : Text :=
  (ofReport root r).render 0

end SceneAudit.JsonReport
