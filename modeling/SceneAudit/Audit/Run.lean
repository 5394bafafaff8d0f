import SceneAudit.Audit.DumpPlan
import SceneAudit.Audit.Report
import SceneAudit.Discovery.Finder
import SceneAudit.Registry.Basic
import SceneAudit.Registry.UsedSet
import SceneAudit.Usage.Resolver

/-! # Running an audit

All scripts are registered before any scene is looked at. Each behavior of a scene marks its script
as used unless a behavior before it has, and the hierarchy of the scene is dumped. What is
registered and not used at the end is reported.
-/

namespace SceneAudit

/-- Why a run cannot start. -/
inductive RunError where
  | projectNotFound (path : Text)
  | notADirectory (path : Text)
  | outputDirectory (path : Text) (fault : Fault)
  deriving DecidableEq, Repr

def RunError.message : RunError → Text
  | .projectNotFound path => "Project path not found: ".toList ++ path
  | .notADirectory path => "Project path is not a directory: ".toList ++ path
  | .outputDirectory path fault =>
    "Failed to create output directory ".toList ++ path ++ ": ".toList ++ fault.message

/-- What changes during a run: the files, the used identifiers and the tables of scripts. -/
structure RunState where
  tree : FileTree
  used : UsedSet
  resolver : Resolver
  deriving Repr

namespace Audit

def sidecarContent (tree : FileTree) (config : Config) (script : SourceFile) : Option Bytes :=
  (tree.read (script.sidecar config.metaSuffix)).toOption

def registerScript (tree : FileTree) (config : Config) (registry : Registry) (script : SourceFile) :
    Registry :=
  (registry.register script.path (sidecarContent tree config script)).1

def registerAll (tree : FileTree) (config : Config) (scripts : List SourceFile) : Registry :=
  scripts.foldl (registerScript tree config) .empty

def judge (state : RunState) (location : Text) (b : Scene.Behavior) : RunState :=
  let (resolver, used) := state.resolver.isUsed state.tree location b.fields
  { state with
    resolver := resolver
    used := if used then (state.used.mark b.script).1 else state.used }

/-- Let a behavior mark its script. -/
def resolveBehavior (registry : Registry) (state : RunState) (b : Scene.Behavior) : RunState :=
  if !b.hasScript || state.used.contains b.script then state
  else match registry.lookup b.script with
    | none => state
    | some location => judge state location b

def summary (scene : SourceFile) (dump : Option Text) (parsed : Scene) (hierarchy : Hierarchy) :
    SceneSummary where
  scene := scene.path
  dump := dump
  objects := hierarchy.lines.length
  behaviors := parsed.behaviors.length
  malformed := parsed.malformed
  issues := hierarchy.issues

def failure (scene : SourceFile) (fault : SceneFault) : SceneFailure :=
  ⟨scene.path, fault.message⟩

/-- Write the dump of a scene, if it has one. -/
def writeDump (tree : FileTree) (dump : Option Text) (hierarchy : Hierarchy) :
    Except SceneFault FileTree :=
  match dump with
  | none => .ok tree
  | some path =>
    match tree.write path (Utf8.encode hierarchy.render) with
    | .ok tree => .ok tree
    | .error fault => .error (.dumpNotWritten path fault)

/-- Process a scene: resolve its behaviors, then dump its hierarchy. -/
def processScene (config : Config) (registry : Registry) (state : RunState) (scene : SourceFile)
    (dump : Option Text) : RunState × Except SceneFailure SceneSummary :=
  match state.tree.readText scene.path with
  | .error fault => (state, .error (failure scene (.unreadable scene.path fault)))
  | .ok text =>
    let parsed := Scene.parse config.usage.reservedFields text
    let state := parsed.behaviors.foldl (resolveBehavior registry) state
    let hierarchy := Hierarchy.ofScene parsed
    match writeDump state.tree dump hierarchy with
    | .error fault => (state, .error (failure scene fault))
    | .ok tree => ({ state with tree := tree }, .ok (summary scene dump parsed hierarchy))

def processAll (config : Config) (registry : Registry) :
    RunState → List (SourceFile × Option Text) → RunState × List (Except SceneFailure SceneSummary)
  | state, [] => (state, [])
  | state, (scene, dump) :: rest =>
    let (state, outcome) := processScene config registry state scene dump
    let (state, outcomes) := processAll config registry state rest
    (state, outcome :: outcomes)

def unusedScripts (root : Text) (registry : Registry) (used : UsedSet) : List UnusedScript :=
  Sorting.sort UnusedScript.le
    ((registry.artifacts.filter fun a => !used.contains a.identifier).map fun a =>
      ⟨Path.relativeTo root a.location, a.identifier⟩)

def summary? : Except SceneFailure SceneSummary → Option SceneSummary
  | .ok s => some s
  | .error _ => none

def failure? : Except SceneFailure SceneSummary → Option SceneFailure
  | .ok _ => none
  | .error f => some f

/-- Audit a project whose output directory is there. -/
def audit (tree : FileTree) (config : Config) (root output : Text) : FileTree × AuditReport :=
  let scripts := Finder.scripts tree config root
  let scenes := Finder.scenes tree config root
  let registry := registerAll tree config scripts
  let dumps := DumpPlan.ofTexts output config.report.dumpSuffix (scenes.map SourceFile.path)
  let start : RunState := ⟨tree, .empty, .new config.usage.policy config.usage.baseTypes⟩
  let (state, outcomes) := processAll config registry start (scenes.zip dumps)
  (state.tree,
    { unused := unusedScripts root registry state.used
      scriptsFound := scripts.length
      scriptsRegistered := registry.size
      scenes := outcomes.filterMap summary?
      failures := outcomes.filterMap failure? })

/-- Audit a project and write the dumps of its scenes below the output directory. -/
def run (tree : FileTree) (config : Config) (root output : Text) :
    Except RunError (FileTree × AuditReport) :=
  if !tree.pathExists root then .error (.projectNotFound root)
  else if !tree.isDirectory root then .error (.notADirectory root)
  else match tree.makeDirectories output with
    | .error fault => .error (.outputDirectory output fault)
    | .ok tree => .ok (audit tree config root output)

end Audit

end SceneAudit
