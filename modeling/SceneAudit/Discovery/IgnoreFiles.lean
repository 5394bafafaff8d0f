import SceneAudit.Discovery.IgnoreRule
import SceneAudit.Files.Tree

/-! # Ignore files of a tree

Files named `.ignore` count everywhere. Those named `.gitignore` and the exclude file of a
repository count for paths inside a repository only, up to the repository's own directory. The file
nearest to a path that says something about it counts, and `.ignore` before the others.
-/

namespace SceneAudit

/-- The ignore rules of a tree by directory, and where its repositories lie. -/
structure IgnoreFiles where
  plain : List (Location × List IgnoreRule)
  versioned : List (Location × List IgnoreRule)
  excluded : List (Location × List IgnoreRule)
  repositories : List Location
  deriving Repr

namespace IgnoreFiles

def baseOf? (names loc : Location) : Option Location :=
  (FileTree.beneath? names.reverse loc.reverse).map List.reverse

/-- The rules of all files of a tree with the given names at the end of their locations. -/
def rulesAt (tree : FileTree) (names : Location) : List (Location × List IgnoreRule) :=
  tree.entries.filterMap fun (loc, entry) =>
    match baseOf? names loc, entry with
    | some base, .file content => some (base, IgnoreRule.ofFile content)
    | _, _ => none

def ofTree (tree : FileTree) : IgnoreFiles where
  plain := rulesAt tree [".ignore".toList]
  versioned := rulesAt tree [".gitignore".toList]
  excluded := rulesAt tree [".git".toList, "info".toList, "exclude".toList]
  repositories := tree.entries.filterMap fun e => baseOf? [".git".toList] e.1

def isRepository (files : IgnoreFiles) (dir : Location) : Bool :=
  files.repositories.contains dir

def above (loc : Location) : List Location :=
  (List.range loc.length).reverse.map loc.take

def withinRepository (files : IgnoreFiles) : List Location → List Location
  | [] => []
  | dir :: dirs =>
    if files.isRepository dir then [dir] else dir :: withinRepository files dirs

def pathBytes (names : Location) : Bytes :=
  Utf8.encode (Text.joinWith ['/'] names)

/-- What rules by directory say about a location, the first directory that says something first. -/
def verdictOf (rules : List (Location × List IgnoreRule)) (loc : Location) (isDirectory : Bool) :
    List Location → Verdict
  | [] => .silent
  | dir :: dirs =>
    ((rules.lookup dir).elim .silent fun rs =>
      IgnoreRule.verdict rs (pathBytes (loc.drop dir.length)) isDirectory).orElse
      (verdictOf rules loc isDirectory dirs)

def verdict (files : IgnoreFiles) (loc : Location) (isDirectory : Bool) : Verdict :=
  let dirs := above loc
  let inside := if dirs.any files.isRepository then files.withinRepository dirs else []
  ((verdictOf files.plain loc isDirectory dirs).orElse
    (verdictOf files.versioned loc isDirectory inside)).orElse
    (verdictOf files.excluded loc isDirectory inside)

/-- A walk leaves out a location: an ignore file says so, or none speaks of it and its name is
hidden. -/
def leavesOut (files : IgnoreFiles) (loc : Location) (isDirectory : Bool) : Bool :=
  match files.verdict loc isDirectory with
  | .ignored => true
  | .kept => false
  | .silent => (loc.getLast?.bind List.head?) == some '.'

end IgnoreFiles

end SceneAudit
