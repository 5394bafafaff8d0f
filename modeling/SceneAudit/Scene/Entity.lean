import SceneAudit.Scene.Reference
import SceneAudit.Scene.WrittenText

/-! # Blocks and entities

A block has a kind and properties. The kinds that an audit looks at make entities: scene objects,
transforms, and behaviors with their scripts.
-/

namespace SceneAudit.Scene

open Yaml (Value)

/-- The kind of a block. -/
inductive BlockKind where
  | object
  | transform
  | behavior
  | other (name : Text)
  deriving DecidableEq, Repr

namespace BlockKind

def ofName (name : Text) : BlockKind :=
  if name = "GameObject".toList then .object
  else if name = "Transform".toList ∨ name = "RectTransform".toList then .transform
  else if name = "MonoBehaviour".toList then .behavior
  else .other name

end BlockKind

/-- A block whose body has been read. -/
structure Block where
  anchor : Text
  kind : BlockKind
  stripped : Bool
  properties : List (Value × Value)
  deriving Repr

/-- A scene object. -/
structure Object where
  anchor : Text
  name : Text
  deriving DecidableEq, Repr

/-- The place of a scene object in the hierarchy. -/
structure Transform where
  anchor : Text
  /-- Anchor of the object that has this place. -/
  owner : Text
  /-- Anchor of the transform above. -/
  parent : Text
  deriving DecidableEq, Repr

namespace Transform

def isRoot (t : Transform) : Bool :=
  t.parent == noAnchor

end Transform

/-- A script attached to a scene object. -/
structure Behavior where
  anchor : Text
  /-- Identifier of the script, empty if there is none. -/
  script : Text
  /-- Keys of the serialized fields in the order in which they are written. -/
  fields : List Text
  deriving DecidableEq, Repr

namespace Behavior

def hasScript (b : Behavior) : Bool :=
  !b.script.isEmpty

end Behavior

/-- What a block of a recognized kind stands for. -/
inductive Entity where
  | object (o : Object)
  | transform (t : Transform)
  | behavior (b : Behavior)
  deriving DecidableEq, Repr

namespace Entity

def unnamed : Text :=
  "<unnamed>".toList

def objectName (block : Block) (body : Text) : Text :=
  let written := (propertyText? body "m_Name".toList).bind fun t => (Text.lines t).head?
  (writtenText? (Value.lookup "m_Name".toList block.properties) written).getD unnamed

def scriptIdentifier (block : Block) (body : Text) : Text :=
  let written := (propertyText? body "m_Script".toList).bind identifierIn?
  let typed := (Value.lookup "m_Script".toList block.properties).bind (Value.get? "guid".toList)
  (writtenText? typed written).getD []

def serializedFields (reserved : List Text) (properties : List (Value × Value)) : List Text :=
  (properties.filterMap fun p => p.1.asString?).filter fun key => !reserved.contains key

def reference (block : Block) (key : String) : Text :=
  referencedAnchor (Value.lookup key.toList block.properties)

def ofBlock? (reserved : List Text) (block : Block) (body : Text) : Option Entity :=
  match block.kind with
  | .object => some (.object ⟨block.anchor, objectName block body⟩)
  | .transform =>
    some (.transform ⟨block.anchor, reference block "m_GameObject", reference block "m_Father"⟩)
  | .behavior =>
    some (.behavior
      ⟨block.anchor, scriptIdentifier block body, serializedFields reserved block.properties⟩)
  | .other _ => none

def object? : Entity → Option Object
  | .object o => some o
  | _ => none

def transform? : Entity → Option Transform
  | .transform t => some t
  | _ => none

def behavior? : Entity → Option Behavior
  | .behavior b => some b
  | _ => none

end Entity

end SceneAudit.Scene
