import SceneAudit.Config.Settings
import SceneAudit.Yaml.Anchors
import SceneAudit.Yaml.Scalar

/-! # Configuration in YAML

Any scalar counts as a text, spelled as it is written. A place where nothing is written is an empty
list or section. The policy is a word, or a local tag on null.
-/

namespace SceneAudit.Config

open Yaml

namespace FromYaml

def isBlank : Linked → Bool
  | .scalar _ .plain [] => true
  | _ => false

def text? (doc : Document) (node : Linked) : Option Text :=
  match doc.target? node with
  | some (.scalar _ _ text) => some text
  | _ => none

def items? (doc : Document) (node : Linked) : Option (List Linked) :=
  match doc.target? node with
  | some (.sequence _ items) => some items
  | some node => if isBlank node then some [] else none
  | none => none

def entries? (doc : Document) (_ : List Text) (node : Linked) : Option (List (Text × Linked)) :=
  match doc.target? node with
  | some (.mapping _ entries) => entries.mapM fun (key, value) => (text? doc key).map (·, value)
  | some node => if isBlank node then some [] else none
  | none => none

def policy? (doc : Document) (node : Linked) : Option UsagePolicy :=
  match doc.target? node with
  | some (.scalar props style text) =>
    match props.tag with
    | some ('!' :: tag) =>
      if style = .plain ∧ (text = [] ∨ Scalar.isNull text) then UsagePolicy.ofWord? tag else none
    | _ => UsagePolicy.ofWord? text
  | _ => none

def language (doc : Document) : Language Linked where
  text? := text? doc
  items? := items? doc
  entries? := entries? doc
  policy? := policy? doc

end FromYaml

/-- The configuration that a text in YAML sets; a text without a document sets nothing. -/
def ofYaml? (t : Text) : Option Config :=
  match Document.ofText? t with
  | none => none
  | some none => some .default
  | some (some doc) => (FromYaml.language doc).config? doc.root

end SceneAudit.Config
