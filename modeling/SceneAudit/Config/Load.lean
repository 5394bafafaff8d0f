import SceneAudit.Config.FromToml
import SceneAudit.Config.FromYaml
import SceneAudit.Files.Tree

/-! # Loading a configuration

The extension of a configuration file names its language; without a known extension YAML is tried
first and then TOML. A project may hold its configuration at one of several places, the first of
which counts.
-/

namespace SceneAudit.Config

/-- Why a configuration cannot be loaded. -/
inductive LoadError where
  | unreadable (path : Text)
  | notYaml
  | notToml
  | unknownFormat
  deriving DecidableEq, Repr

def LoadError.message : LoadError → Text
  | .unreadable path => "Failed to read config file: ".toList ++ path
  | .notYaml => "Failed to parse YAML config".toList
  | .notToml => "Failed to parse TOML config".toList
  | .unknownFormat => "Failed to parse config file".toList

/-- An answer, or the cause of its absence. -/
def orElseCause {α : Type} (cause : LoadError) : Option α → Except LoadError α
  | some a => .ok a
  | none => .error cause

/-- The configuration of a text in either language. -/
def ofEither? (t : Text) : Option Config :=
  match ofYaml? t with
  | some config => some config
  | none => ofToml? t

def parse (path t : Text) : Except LoadError Config :=
  let ext := (Path.extension? path).getD []
  if ext = "yml".toList ∨ ext = "yaml".toList then orElseCause .notYaml (ofYaml? t)
  else if ext = "toml".toList then orElseCause .notToml (ofToml? t)
  else orElseCause .unknownFormat (ofEither? t)

/-- The configuration of a file. -/
def load (tree : FileTree) (path : Text) : Except LoadError Config :=
  match tree.readText path with
  | .error _ => .error (.unreadable path)
  | .ok t => parse path t

def defaultNames : List Text :=
  [".scriptsweep.yml", ".scriptsweep.yaml", ".scriptsweep.toml", "scriptsweep.yml",
    "scriptsweep.yaml", "scriptsweep.toml"].map String.toList

/-- The configuration of a project: that of the first file that is there, or the default. -/
def ofProject (tree : FileTree) (root : Text) : Except LoadError Config :=
  match (defaultNames.map (Path.join root)).find? tree.pathExists with
  | some path => load tree path
  | none => .ok .default

end SceneAudit.Config
