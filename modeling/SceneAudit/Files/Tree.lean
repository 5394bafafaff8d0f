import SceneAudit.Files.Path
import SceneAudit.Text.Utf8

/-! # File trees

A file tree is a value: what stands at which location, and the directory that relative paths start
from. Paths are followed step by step, each step from a directory that is there. Writing and making
directories return a new tree or the fault that stops them.

What stands at a location is a directory or a file of its own: trees hold no links, so that a file
is found at one location only and what is written there is written nowhere else. Names are texts.
-/

namespace SceneAudit

/-- Names from the root of the tree. -/
abbrev Location := List Text

/-- What stands at a location. -/
inductive Entry where
  | directory
  | file (content : Bytes)
  deriving DecidableEq, Repr

/-- Why the file system refuses something. -/
inductive Fault where
  | notFound
  | alreadyExists
  | notDirectory
  | isDirectory
  | nameTooLong
  | nulInPath
  | notText
  deriving DecidableEq, Repr

def Fault.message : Fault → Text
  | .notFound => "No such file or directory (os error 2)".toList
  | .alreadyExists => "File exists (os error 17)".toList
  | .notDirectory => "Not a directory (os error 20)".toList
  | .isDirectory => "Is a directory (os error 21)".toList
  | .nameTooLong => "File name too long (os error 36)".toList
  | .nulInPath => "file name contained an unexpected NUL byte".toList
  | .notText => "stream did not contain valid UTF-8".toList

/-- Entries by location, and the directory that relative paths start from. The root is a directory
whether it is listed or not. -/
structure FileTree where
  entries : List (Location × Entry)
  current : Location
  deriving Repr

namespace FileTree

def entryAt (tree : FileTree) (loc : Location) : Option Entry :=
  match loc with
  | [] => some .directory
  | _ => tree.entries.lookup loc

def put (tree : FileTree) (loc : Location) (entry : Entry) : FileTree :=
  { tree with entries := (loc, entry) :: tree.entries.filter fun e => e.1 ≠ loc }

def drop (tree : FileTree) (loc : Location) : FileTree :=
  { tree with entries := tree.entries.filter fun e => e.1 ≠ loc }

def fill (tree : FileTree) (loc : Location) : FileTree :=
  if (tree.entryAt loc).isSome then tree else tree.put loc .directory

/-- The tree with directories at a location and above it, where nothing stands. -/
def fillPath (tree : FileTree) (loc : Location) : FileTree :=
  (List.range loc.length).foldl (fun tree n => tree.fill (loc.take (n + 1))) tree

/-- The tree with a file at a location, and directories above it where nothing stands. -/
def plant (tree : FileTree) (loc : Location) (content : Bytes) : FileTree :=
  (tree.fillPath loc.dropLast).put loc (.file content)

def isTooLong (name : Text) : Bool :=
  255 < (Utf8.encode name).length

/-- Follow the pieces of a path from a location. -/
def follow (tree : FileTree) : Location → List Text → Except Fault Location
  | loc, [] => .ok loc
  | loc, piece :: pieces =>
    match tree.entryAt loc with
    | none => .error .notFound
    | some (.file _) => .error .notDirectory
    | some .directory =>
      if piece = [] ∨ piece = ['.'] then follow tree loc pieces
      else if piece = ['.', '.'] then follow tree loc.dropLast pieces
      else if isTooLong piece then .error .nameTooLong
      else follow tree (loc ++ [piece]) pieces

def origin (tree : FileTree) (path : Text) : Location :=
  if Path.isAbsolute path then [] else tree.current

/-- The location that a path leads to, whether something stands there or not. -/
def locate (tree : FileTree) (path : Text) : Except Fault Location :=
  if path.contains '\x00' then .error .nulInPath
  else if path = [] then .error .notFound
  else tree.follow (tree.origin path) (Text.splitOn '/' path)

def entryOf (tree : FileTree) (path : Text) : Except Fault Entry :=
  match tree.locate path with
  | .error e => .error e
  | .ok loc =>
    match tree.entryAt loc with
    | none => .error .notFound
    | some e => .ok e

def pathExists (tree : FileTree) (path : Text) : Bool :=
  match tree.entryOf path with
  | .ok _ => true
  | .error _ => false

def isFile (tree : FileTree) (path : Text) : Bool :=
  match tree.entryOf path with
  | .ok (.file _) => true
  | _ => false

def isDirectory (tree : FileTree) (path : Text) : Bool :=
  match tree.entryOf path with
  | .ok .directory => true
  | _ => false

def read (tree : FileTree) (path : Text) : Except Fault Bytes :=
  match tree.entryOf path with
  | .ok (.file content) => .ok content
  | .ok .directory => .error .isDirectory
  | .error e => .error e

def readText (tree : FileTree) (path : Text) : Except Fault Text :=
  match tree.read path with
  | .error e => .error e
  | .ok bytes =>
    match Utf8.decode? bytes with
    | some t => .ok t
    | none => .error .notText

/-- A path taken apart for making its last entry: the directory that would hold it, the last piece,
and whether slashes follow that piece. `none` stands for the root. -/
def target (tree : FileTree) (path : Text) : Except Fault (Option (Location × Text × Bool)) :=
  if path.contains '\x00' then .error .nulInPath
  else if path = [] then .error .notFound
  else
    let pieces := Text.splitOn '/' path
    match (pieces.reverse.dropWhile (· = [])) with
    | [] => .ok none
    | last :: before =>
      match tree.follow (tree.origin path) (before.reverse ++ [['.']]) with
      | .error e => .error e
      | .ok loc =>
        if isTooLong last then .error .nameTooLong
        else .ok (some (loc, last, path.getLast? == some '/'))

def isSpecial (piece : Text) : Bool :=
  piece == ['.'] || piece == ['.', '.']

/-- Write a file, in place of one that is there. -/
def write (tree : FileTree) (path : Text) (content : Bytes) : Except Fault FileTree :=
  match tree.target path with
  | .error e => .error e
  | .ok none => .error .isDirectory
  | .ok (some (loc, last, slash)) =>
    if slash || isSpecial last then .error .isDirectory
    else match tree.entryAt (loc ++ [last]) with
      | some .directory => .error .isDirectory
      | _ => .ok (tree.put (loc ++ [last]) (.file content))

def makeDirectory (tree : FileTree) (path : Text) : Except Fault FileTree :=
  match tree.target path with
  | .error e => .error e
  | .ok none => .error .alreadyExists
  | .ok (some (loc, last, _)) =>
    if isSpecial last then .error .alreadyExists
    else match tree.entryAt (loc ++ [last]) with
      | some _ => .error .alreadyExists
      | none => .ok (tree.put (loc ++ [last]) .directory)

def ensureDirectory (tree : FileTree) (path : Text) : Except Fault FileTree :=
  match tree.makeDirectory path with
  | .ok made => .ok made
  | .error e => if tree.isDirectory path then .ok tree else .error e

/-- Make a directory and those above it that are missing; `depth` bounds the number of levels. -/
def makeDirectoriesWithin (tree : FileTree) : Nat → Text → Except Fault FileTree
  | 0, _ => .error .notFound
  | depth + 1, path =>
    if path = [] then .ok tree
    else match tree.makeDirectory path with
      | .ok made => .ok made
      | .error .notFound =>
        match Path.parent? path with
        | none => .error .notFound
        | some above =>
          match makeDirectoriesWithin tree depth above with
          | .error e => .error e
          | .ok tree => tree.ensureDirectory path
      | .error e => if tree.isDirectory path then .ok tree else .error e

def makeDirectories (tree : FileTree) (path : Text) : Except Fault FileTree :=
  tree.makeDirectoriesWithin (path.length + 1) path

def beneath? : Location → Location → Option Location
  | [], loc => some loc
  | _ :: _, [] => none
  | a :: base, b :: loc => if a = b then beneath? base loc else none

def filesBelow (tree : FileTree) (base : Location) : List (Location × Bytes) :=
  tree.entries.filterMap fun (loc, entry) =>
    match beneath? base loc, entry with
    | some (n :: ns), .file content => some (n :: ns, content)
    | _, _ => none

end FileTree

end SceneAudit
