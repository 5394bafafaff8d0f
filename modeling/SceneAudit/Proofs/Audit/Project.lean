import SceneAudit.Audit.Run
import SceneAudit.Proofs.Audit.DumpPlan
import SceneAudit.Proofs.Discovery.Found
import SceneAudit.Proofs.Files.Frame
import SceneAudit.Proofs.Registry.Basic

/-! # Projects

What an audit works on, and what it is to find: which artifacts are registered, and which of them
some behavior uses. All of it is read off the files as they were found, so it depends on no order of
work.
-/

namespace SceneAudit

open Scene

def FileTree.sameFile (tree : FileTree) (a b : Text) : Bool :=
  match tree.locate a, tree.locate b with
  | .ok l, .ok m => l == m
  | _, _ => false

theorem FileTree.sameFile_of_locate {tree : FileTree} {a b : Text} {loc : Location}
    (ha : tree.locate a = .ok loc) (hb : tree.locate b = .ok loc) : tree.sameFile a b = true := by
  rw [sameFile, ha, hb]
  exact beq_self_eq_true loc

/-- What an audit works on: the files, with the output directory among them, and the settings. -/
structure Project where
  tree : FileTree
  config : Config
  root : Text
  output : Text

namespace Project

/-- The scripts of the project. -/
def scripts (p : Project) : List SourceFile :=
  Finder.scripts p.tree p.config p.root

/-- The scenes of the project. -/
def scenes (p : Project) : List SourceFile :=
  Finder.scenes p.tree p.config p.root

/-- The dumps of the scenes, one entry for each. -/
def dumps (p : Project) : List (Option Text) :=
  DumpPlan.ofTexts p.output p.config.report.dumpSuffix (p.scenes.map SourceFile.path)

/-- The state in which the scenes find what is shared. -/
def state (p : Project) : RunState :=
  ⟨p.tree, .empty, .new p.config.usage.policy p.config.usage.baseTypes⟩

/-- What the sequential audit reports. -/
def report (p : Project) : AuditReport :=
  (Audit.audit p.tree p.config p.root p.output).2

def identifier? (p : Project) (script : SourceFile) : Option Text :=
  Registry.sidecarIdentifier? (Audit.sidecarContent p.tree p.config script)

def artifact? (p : Project) (script : SourceFile) : Option Artifact :=
  (p.identifier? script).map (⟨·, script.path⟩)

def artifacts (p : Project) : List Artifact :=
  p.scripts.filterMap p.artifact?

def symbols (p : Project) (path : Text) : SymbolTable :=
  p.state.resolver.readTable p.tree path

/-- Some scene of the project can be read and holds the behavior. -/
def Holds (p : Project) (b : Behavior) : Prop :=
  ∃ scene ∈ p.scenes, ∃ text, p.tree.readText scene.path = .ok text ∧
    b ∈ (Scene.parse p.config.usage.reservedFields text).behaviors

/-- By the symbol table of the script at a path, a behavior uses it. -/
def Uses (p : Project) (b : Behavior) (path : Text) : Prop :=
  (p.symbols path).decide p.config.usage.policy b.fields = true

/-- Some behavior of a scene names the artifact and uses it. -/
def IsUsed (p : Project) (a : Artifact) : Prop :=
  ∃ b, p.Holds b ∧ b.script = a.identifier ∧ p.Uses b a.location

/-- A file is written to the location by some dump. -/
def Written (p : Project) (loc : Location) : Prop :=
  ∃ dump, some dump ∈ p.dumps ∧ p.tree.locate dump = .ok loc

/-- No two sidecars carry one identifier. -/
def DistinctIdentifiers (p : Project) : Prop :=
  (p.scripts.filterMap p.identifier?).Nodup

/-- No dump is written over a script or a scene. -/
def DumpsApart (p : Project) : Prop :=
  ∀ dump ∈ p.dumps.filterMap id, ∀ file ∈ p.scripts ++ p.scenes,
    p.tree.sameFile dump file.path = false

instance : DecidablePred DistinctIdentifiers := fun _ => inferInstanceAs (Decidable (List.Nodup _))

instance : DecidablePred DumpsApart := fun _ =>
  inferInstanceAs (Decidable (∀ _ ∈ _, ∀ _ ∈ _, _ = _))

/-- What an audit relies on. -/
structure Regular (p : Project) : Prop where
  wellFormed : p.tree.WellFormed
  identifiers : p.DistinctIdentifiers
  dumps : p.DumpsApart

instance : DecidablePred Regular := fun p =>
  decidable_of_iff (p.tree.WellFormed ∧ p.DistinctIdentifiers ∧ p.DumpsApart)
    ⟨fun ⟨h₁, h₂, h₃⟩ => ⟨h₁, h₂, h₃⟩, fun h => ⟨h.wellFormed, h.identifiers, h.dumps⟩⟩

theorem length_dumps (p : Project) : p.dumps.length = p.scenes.length := by
  rw [dumps, DumpPlan.ofTexts_eq, DumpPlan.length_assign, List.length_map]

section Artifacts

variable {p : Project} {identifier path : Text}

theorem mem_artifacts : (⟨identifier, path⟩ : Artifact) ∈ p.artifacts ↔
    ∃ script ∈ p.scripts, p.identifier? script = some identifier ∧ script.path = path := by
  simp [artifacts, artifact?]

theorem location_ne_of_no_identifier {a : Artifact} {script : SourceFile} (ha : a ∈ p.artifacts)
    (hscript : script ∈ p.scripts) (hnone : p.identifier? script = none) :
    a.location ≠ script.path := by
  intro hpath
  obtain ⟨other, hother, hid, hsame⟩ := mem_artifacts.mp ha
  have htype : other.type = script.type :=
    (Finder.mem_scan_of_mem_findIn hother).1.trans (Finder.mem_scan_of_mem_findIn hscript).1.symm
  obtain rfl : other = script := by
    rw [SourceFile.mk.injEq]
    exact ⟨hsame.trans hpath, htype⟩
  exact Option.some_ne_none _ (hid.symm.trans hnone)

theorem map_identifier_artifacts :
    p.artifacts.map Artifact.identifier = p.scripts.filterMap p.identifier? := by
  rw [artifacts, List.map_filterMap]
  refine List.filterMap_congr fun script _ => ?_
  rw [artifact?, Option.map_map, Function.comp_def]
  exact Option.map_id'

theorem identifier_ne_nil (h : (⟨identifier, path⟩ : Artifact) ∈ p.artifacts) :
    identifier ≠ [] := by
  obtain ⟨script, -, hid, -⟩ := mem_artifacts.mp h
  exact Registry.sidecarIdentifier?_ne_nil hid

theorem Regular.nodup_artifacts (hp : p.Regular) :
    (p.artifacts.map Artifact.identifier).Nodup := by
  rw [map_identifier_artifacts]
  exact hp.identifiers

theorem Regular.path_unique (hp : p.Regular) {path' : Text}
    (h : (⟨identifier, path⟩ : Artifact) ∈ p.artifacts)
    (h' : (⟨identifier, path'⟩ : Artifact) ∈ p.artifacts) : path = path' :=
  congrArg Artifact.location (List.inj_on_of_nodup_map hp.nodup_artifacts h h' rfl)

end Artifacts

theorem exists_locate_of_apart {p : Project} {path : Text} (hfile : p.tree.isFile path = true)
    (hapart : ∀ dump ∈ p.dumps.filterMap id, p.tree.sameFile dump path = false) :
    ∃ loc, p.tree.locate path = .ok loc ∧ ¬ p.Written loc := by
  obtain ⟨loc, content, hloc, -⟩ := FileTree.isFile_iff.mp hfile
  refine ⟨loc, hloc, ?_⟩
  rintro ⟨dump, hdump, hwritten⟩
  have hsame := FileTree.sameFile_of_locate hwritten hloc
  have hmem : dump ∈ p.dumps.filterMap id := List.mem_filterMap.mpr ⟨some dump, hdump, rfl⟩
  exact Bool.false_ne_true ((hapart dump hmem).symm.trans hsame)

section Found

variable {p : Project} (hp : p.Regular) {file : SourceFile}

include hp

theorem Regular.isFile (hfile : file ∈ p.scripts ++ p.scenes) : p.tree.isFile file.path = true := by
  rcases List.mem_append.mp hfile with hfile | hfile
  · exact Finder.isFile_of_mem_scripts hp.wellFormed hfile
  · exact Finder.isFile_of_mem_scenes hp.wellFormed hfile

theorem Regular.exists_locate (hfile : file ∈ p.scripts ++ p.scenes) :
    ∃ loc, p.tree.locate file.path = .ok loc ∧ ¬ p.Written loc :=
  exists_locate_of_apart (hp.isFile hfile) fun dump hdump => hp.dumps dump hdump file hfile

theorem Regular.readText_eq {tree : FileTree} (hframe : FileTree.Frame p.Written p.tree tree)
    (hfile : file ∈ p.scripts ++ p.scenes) :
    tree.readText file.path = p.tree.readText file.path := by
  obtain ⟨loc, hloc, hkept⟩ := hp.exists_locate hfile
  exact hframe.readText hloc hkept

theorem Regular.isFile_of_frame {tree : FileTree} (hframe : FileTree.Frame p.Written p.tree tree)
    (hfile : file ∈ p.scripts ++ p.scenes) : tree.isFile file.path = true := by
  obtain ⟨loc, hloc, hkept⟩ := hp.exists_locate hfile
  rw [hframe.isFile hloc hkept]
  exact hp.isFile hfile

theorem Regular.symbols_eq_of_same {script script' : SourceFile} (h : script ∈ p.scripts)
    (h' : script' ∈ p.scripts) (hsame : Path.same script.path script'.path = true) :
    p.symbols script.path = p.symbols script'.path := by
  obtain ⟨loc, hloc, -⟩ := hp.exists_locate (List.mem_append_left _ h)
  obtain ⟨loc', hloc', -⟩ := hp.exists_locate (List.mem_append_left _ h')
  obtain rfl := FileTree.locate_eq_of_same hsame hloc hloc'
  rw [symbols, symbols, Resolver.readTable, Resolver.readTable,
    FileTree.readText_congr hloc hloc' rfl]

end Found

end Project

theorem Audit.writeDump_eq_ok {tree after : FileTree} {dump : Option Text} {hierarchy : Hierarchy}
    (h : writeDump tree dump hierarchy = .ok after) :
    dump = none ∧ after = tree ∨ ∃ path, dump = some path ∧
      tree.write path (Utf8.encode hierarchy.render) = .ok after := by
  unfold writeDump at h
  split at h
  · exact Or.inl ⟨rfl, (Except.ok.inj h).symm⟩
  · rename_i path
    split at h
    · rename_i after' hwrite
      obtain rfl := Except.ok.inj h
      exact Or.inr ⟨path, rfl, hwrite⟩
    · simp at h

end SceneAudit
