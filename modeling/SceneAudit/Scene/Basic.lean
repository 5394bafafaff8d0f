import SceneAudit.Scene.Entity
import SceneAudit.Scene.RawBlock

/-! # Scenes

A scene text is read block by block. A block without an anchor is passed over, and so is one whose
body is not a mapping that begins with a string key. A body that is no document makes the block
malformed, which does not touch the other blocks.
-/

namespace SceneAudit

open Scene Yaml

/-- The blocks and entities of a scene text in the order in which they are written. -/
structure Scene where
  blocks : List Block
  entities : List Entity
  /-- The number of blocks whose body cannot be read. -/
  malformed : Nat
  deriving Repr

namespace Scene

/-- What reading a block comes to. -/
inductive Reading where
  | ignored
  | malformed
  | block (b : Block) (entity : Option Entity)
  deriving Repr

def bodyEntry? : Value → Option (Text × List (Value × Value))
  | .mapping ((key, value) :: _) =>
    match key.asString?, value with
    | some name, .mapping properties => some (name, properties)
    | some name, _ => some (name, [])
    | none, _ => none
  | _ => none

namespace Reading

def ofBody (reserved : List Text) (anchor : Text) (raw : RawBlock) : Reading :=
  match Value.ofText? raw.body with
  | none => .malformed
  | some value =>
    match bodyEntry? value with
    | none => .ignored
    | some (name, properties) =>
      let block : Block := ⟨anchor, .ofName name, raw.stripped, properties⟩
      .block block (Entity.ofBlock? reserved block raw.body)

def ofRaw (reserved : List Text) (raw : RawBlock) : Reading :=
  match raw.anchor with
  | none => .ignored
  | some anchor => ofBody reserved anchor raw

def block? : Reading → Option Block
  | .block b _ => some b
  | _ => none

def entity? : Reading → Option Entity
  | .block _ e => e
  | _ => none

def isMalformed : Reading → Bool
  | .malformed => true
  | _ => false

end Reading

def ofReadings (readings : List Reading) : Scene where
  blocks := readings.filterMap Reading.block?
  entities := readings.filterMap Reading.entity?
  malformed := readings.countP Reading.isMalformed

/-- Read a scene text; reserved keys are no serialized fields. -/
def parse (reserved : List Text) (text : Text) : Scene :=
  ofReadings ((RawBlock.split text).map (Reading.ofRaw reserved))

def objects (scene : Scene) : List Object :=
  scene.entities.filterMap Entity.object?

def transforms (scene : Scene) : List Transform :=
  scene.entities.filterMap Entity.transform?

def behaviors (scene : Scene) : List Behavior :=
  scene.entities.filterMap Entity.behavior?

end Scene

end SceneAudit
