import SceneAudit.Usage.Policy

/-! # Configuration

What a run can be told: where scenes lie, which extensions count, what to leave out, how usage is
judged and how the results are named.
-/

namespace SceneAudit

/-- How usage is judged. -/
structure UsageConfig where
  /-- Base type names that mark a script's primary type. -/
  baseTypes : List Text
  /-- Keys of a component block that are never serialized fields. -/
  reservedFields : List Text
  policy : UsagePolicy
  deriving DecidableEq, Repr

/-- How the results are named. -/
structure ReportConfig where
  /-- File name of the summary of unused scripts. -/
  csvName : Text
  /-- What a scene's file name is extended by for its dump. -/
  dumpSuffix : Text
  deriving DecidableEq, Repr

/-- The configuration of a run. -/
structure Config where
  /-- Directories that hold scenes, seen from the project root. -/
  sceneDirs : List Text
  sceneExtensions : List Text
  scriptExtensions : List Text
  /-- What an artifact's file name is extended by for its sidecar. -/
  metaSuffix : Text
  /-- Patterns of project paths to leave out. -/
  exclude : List Text
  usage : UsageConfig
  report : ReportConfig
  deriving DecidableEq, Repr

namespace UsageConfig

def structuralFields : List Text :=
  ["m_ObjectHideFlags", "m_CorrespondingSourceObject", "m_PrefabInstance", "m_PrefabInternal",
    "m_PrefabParentObject", "m_PrefabAsset", "m_GameObject", "m_Enabled", "m_EditorHideFlags",
    "m_Script", "m_Name", "m_EditorClassIdentifier"].map String.toList

def default : UsageConfig where
  baseTypes := ["MonoBehaviour".toList]
  reservedFields := structuralFields
  policy := .strict

end UsageConfig

namespace ReportConfig

def default : ReportConfig where
  csvName := "UnusedScripts.csv".toList
  dumpSuffix := "dump".toList

end ReportConfig

namespace Config

def default : Config where
  sceneDirs := ["Assets/Scenes".toList]
  sceneExtensions := ["unity".toList]
  scriptExtensions := ["cs".toList]
  metaSuffix := "meta".toList
  exclude := ["**/Library/**", "**/Temp/**", "**/obj/**"].map String.toList
  usage := .default
  report := .default

/-- Settings that change quietly what a run reports. -/
inductive Problem where
  | noBaseTypes
  | noScenes
  | noDumpSuffix
  | scriptNotReserved
  deriving DecidableEq, Repr

def Problem.message : Problem → Text
  | .noBaseTypes =>
    "usage.base_types is empty; every script is judged by its first declared type".toList
  | .noScenes => "no scene documents can be found; every script will be reported unused".toList
  | .noDumpSuffix => "report.dump_suffix is empty; dumps end in a bare '.'".toList
  | .scriptNotReserved =>
    "usage.reserved_fields lacks m_Script; it is compared as a serialized field".toList

def problems (config : Config) : List Problem :=
  (if config.usage.baseTypes.isEmpty then [.noBaseTypes] else []) ++
  (if config.sceneDirs.isEmpty || config.sceneExtensions.isEmpty then [.noScenes] else []) ++
  (if config.report.dumpSuffix.isEmpty then [.noDumpSuffix] else []) ++
  (if config.usage.reservedFields.contains "m_Script".toList then [] else [.scriptNotReserved])

end Config

end SceneAudit
