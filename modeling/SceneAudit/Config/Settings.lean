import SceneAudit.Config.Basic

/-! # Settings

A configuration text sets fields by name, section by section. A field that is not set keeps its
default, and names that are no fields are passed over. The languages of such texts differ in what
counts as a text, a list or a section; everything else is the same for all of them.
-/

namespace SceneAudit.Config

/-- How a language writes the values that fields may have. -/
structure Language (α : Type) where
  text? : α → Option Text
  items? : α → Option (List α)
  /-- The entries of a section with the given fields, in the order in which they are written. -/
  entries? : (fields : List Text) → α → Option (List (Text × α))
  policy? : α → Option UsagePolicy

namespace Language

variable {α β : Type}

def texts? (language : Language α) (value : α) : Option (List Text) :=
  (language.items? value).bind fun items => items.mapM language.text?

def field? (read : α → Option β) (default : β) (entries : List (Text × α)) (name : String) :
    Option β :=
  match entries.lookup name.toList with
  | none => some default
  | some value => read value

def setsTwice (fields : List Text) (entries : List (Text × α)) : Bool :=
  fields.any fun f => 1 < entries.countP fun e => e.1 == f

def section? (language : Language α) (fields : List String) (value : α) :
    Option (List (Text × α)) :=
  let fields := fields.map String.toList
  match language.entries? fields value with
  | none => none
  | some entries => if setsTwice fields entries then none else some entries

def usage? (language : Language α) (value : α) : Option UsageConfig := do
  let entries ← language.section? ["base_types", "reserved_fields", "policy"] value
  let baseTypes ← field? language.texts? UsageConfig.default.baseTypes entries "base_types"
  let reserved ← field? language.texts? UsageConfig.default.reservedFields entries "reserved_fields"
  let policy ← field? language.policy? UsageConfig.default.policy entries "policy"
  return ⟨baseTypes, reserved, policy⟩

def report? (language : Language α) (value : α) : Option ReportConfig := do
  let entries ← language.section? ["csv_name", "dump_suffix"] value
  let csvName ← field? language.text? ReportConfig.default.csvName entries "csv_name"
  let dumpSuffix ← field? language.text? ReportConfig.default.dumpSuffix entries "dump_suffix"
  return ⟨csvName, dumpSuffix⟩

/-- The whole configuration. -/
def config? (language : Language α) (value : α) : Option Config := do
  let entries ← language.section?
    ["scene_dirs", "scene_extensions", "script_extensions", "meta_suffix", "exclude", "usage",
      "report"] value
  let sceneDirs ← field? language.texts? Config.default.sceneDirs entries "scene_dirs"
  let sceneExtensions ←
    field? language.texts? Config.default.sceneExtensions entries "scene_extensions"
  let scriptExtensions ←
    field? language.texts? Config.default.scriptExtensions entries "script_extensions"
  let metaSuffix ← field? language.text? Config.default.metaSuffix entries "meta_suffix"
  let exclude ← field? language.texts? Config.default.exclude entries "exclude"
  let usage ← field? language.usage? Config.default.usage entries "usage"
  let report ← field? language.report? Config.default.report entries "report"
  return ⟨sceneDirs, sceneExtensions, scriptExtensions, metaSuffix, exclude, usage, report⟩

end Language

end SceneAudit.Config
