import SceneAudit.Config.Exclusion
import SceneAudit.Discovery.IgnoreFiles
import SceneAudit.Discovery.SourceFile

/-! # Finding source files

A walk below a start directory yields the files that no ignore file and no hidden name leaves out,
where a directory left out takes everything below it along. Files are kept by exclusion pattern and
extension, and listed in the order of their paths without repetition.
-/

namespace SceneAudit.Finder

/-- A walk from a directory comes to the location below it: nothing on the way is left out. -/
def reaches (files : IgnoreFiles) (start names : Location) : Bool :=
  (List.range names.length).all fun i =>
    !files.leavesOut (start ++ names.take (i + 1)) (i + 1 < names.length)

def pathBelow (start : Text) (names : Location) : Text :=
  names.foldl Path.join start

/-- The paths that a walk from a start yields. A start that is a file yields itself. -/
def walk (tree : FileTree) (files : IgnoreFiles) (start : Text) : List Text :=
  match tree.locate start with
  | .error _ => []
  | .ok loc =>
    match tree.entryAt loc with
    | none => []
    | some (.file _) => [start]
    | some .directory =>
      ((tree.filesBelow loc).filter fun f => reaches files loc f.1).map fun f =>
        pathBelow start f.1

def sourceFile? (config : Config) (root path : Text) : Option SourceFile :=
  if Exclusion.excludes config.exclude ((Path.stripBase? root path).getD path) then none
  else (FileType.ofPath? config path).map fun type => ⟨path, type⟩

/-- The source files that a walk from a start yields. -/
def scan (tree : FileTree) (files : IgnoreFiles) (config : Config) (root start : Text) :
    List SourceFile :=
  (walk tree files start).filterMap (sourceFile? config root)

/-- Source files in the order of their paths; of files with the same path the first counts. -/
def arrange (files : List SourceFile) : List SourceFile :=
  Sorting.dedupBy (fun a b => Path.same a.path b.path)
    (Sorting.sort (fun a b => Path.le a.path b.path) files)

def findIn (tree : FileTree) (config : Config) (root : Text) (starts : List Text)
    (type : FileType) : List SourceFile :=
  let files := IgnoreFiles.ofTree tree
  arrange ((starts.flatMap (scan tree files config root)).filter fun f => f.type = type)

def scenes (tree : FileTree) (config : Config) (root : Text) : List SourceFile :=
  findIn tree config root (config.sceneDirs.map (Path.join root)) .scene

def scripts (tree : FileTree) (config : Config) (root : Text) : List SourceFile :=
  findIn tree config root [root] .script

end SceneAudit.Finder
