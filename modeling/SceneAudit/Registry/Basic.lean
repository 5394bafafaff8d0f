import SceneAudit.Registry.Identifier
import SceneAudit.Text.Utf8

/-! # The identifier registry

A registry maps identifiers to the locations of artifacts. A later registration of an identifier
replaces the earlier one.
-/

namespace SceneAudit

/-- One registered artifact. -/
structure Artifact where
  identifier : Text
  location : Text
  deriving DecidableEq, Repr

/-- Registered artifacts; each identifier occurs once. -/
structure Registry where
  artifacts : List Artifact
  deriving Repr

namespace Registry

def empty : Registry :=
  ⟨[]⟩

/-- Add a mapping, in place of one for the same identifier. -/
def insert (registry : Registry) (identifier location : Text) : Registry :=
  ⟨⟨identifier, location⟩ :: registry.artifacts.filter fun a => a.identifier ≠ identifier⟩

def lookup (registry : Registry) (identifier : Text) : Option Text :=
  (registry.artifacts.find? fun a => a.identifier = identifier).map Artifact.location

def size (registry : Registry) : Nat :=
  registry.artifacts.length

def isEmpty (registry : Registry) : Bool :=
  registry.size == 0

/-- The identifier that a sidecar's bytes carry; a missing sidecar and bytes that are not text carry
none. -/
def sidecarIdentifier? (sidecar : Option Bytes) : Option Text :=
  (sidecar.bind Utf8.decode?).bind Identifier.scan?

/-- Register an artifact under the identifier of its sidecar, if it has one. -/
def register (registry : Registry) (artifact : Text) (sidecar : Option Bytes) :
    Registry × Option Text :=
  match sidecarIdentifier? sidecar with
  | none => (registry, none)
  | some identifier => (registry.insert identifier artifact, some identifier)

end Registry

end SceneAudit
