import SceneAudit.Audit.UnusedScript
import SceneAudit.Files.Tree
import SceneAudit.Hierarchy.Walk

/-! # Audit reports

What a run finds: the registered scripts that nothing uses, and for each scene a summary or the
reason why it was skipped.
-/

namespace SceneAudit

/-- What became of a scene that could be read. -/
structure SceneSummary where
  scene : Text
  /-- Where the hierarchy was written, if an earlier scene has not taken the place. -/
  dump : Option Text
  /-- The number of objects in the hierarchy. -/
  objects : Nat
  /-- The number of behaviors. -/
  behaviors : Nat
  malformed : Nat
  issues : List Issue
  deriving Repr

/-- Why a scene was skipped. -/
inductive SceneFault where
  | unreadable (scene : Text) (fault : Fault)
  | dumpNotWritten (dump : Text) (fault : Fault)
  deriving DecidableEq, Repr

def SceneFault.message : SceneFault → Text
  | .unreadable scene fault =>
    "Failed to read scene ".toList ++ scene ++ ": ".toList ++ fault.message
  | .dumpNotWritten dump fault =>
    "failed to write ".toList ++ dump ++ ": ".toList ++ fault.message

/-- A scene that was skipped. -/
structure SceneFailure where
  scene : Text
  reason : Text
  deriving DecidableEq, Repr

/-- What a run finds. -/
structure AuditReport where
  /-- Registered scripts that nothing uses, in the order of their paths and identifiers. -/
  unused : List UnusedScript
  scriptsFound : Nat
  scriptsRegistered : Nat
  scenes : List SceneSummary
  failures : List SceneFailure
  deriving Repr

namespace SceneSummary

def cycles (s : SceneSummary) : Nat :=
  Hierarchy.cycleCount s.issues

end SceneSummary

namespace AuditReport

def scenesProcessed (r : AuditReport) : Nat :=
  r.scenes.length

def usedCount (r : AuditReport) : Nat :=
  r.scriptsRegistered - r.unused.length

def cycleCount (r : AuditReport) : Nat :=
  r.scenes.foldr (fun s n => s.cycles + n) 0

end AuditReport

end SceneAudit
