import SceneAudit.CommandLine.Program

/-! # The command

Standard input lists the files that a run may see, one path on a line; a path that ends in a slash
is a directory. The files are read into a tree, the program runs on the tree, and what it has
written there is written to disk.
-/

namespace SceneAudit.CommandLine

def listedLocation (current : Location) (path : Text) : Location :=
  (Path.components path).foldl (fun loc component =>
    match component with
    | .root => []
    | .here => loc
    | .up => loc.dropLast
    | .name n => loc ++ [n]) current

/-- The path of a location, as seen from the current directory where that is above it. -/
def pathOfLocation (current loc : Location) : Text :=
  match FileTree.beneath? current loc with
  | some names => Text.joinWith ['/'] names
  | none => '/' :: Text.joinWith ['/'] loc

def readListed (tree : FileTree) (path : String) : IO FileTree := do
  let loc := listedLocation tree.current path.toList
  if path.endsWith "/" then return tree.fillPath loc
  else
    let content ← IO.FS.readBinFile path
    return tree.plant loc content.toList

def readTree : IO FileTree := do
  let current := listedLocation [] ((← IO.getEnv "PWD").getD "").toList
  let listing ← (← IO.getStdin).lines
  let paths := listing.toList.filter fun path => path ≠ ""
  paths.foldlM readListed (FileTree.fillPath ⟨[], current⟩ current)

/-- Write to disk what stands at a location, unless it stood there before. -/
def writeEntry (before : FileTree) (loc : Location) (entry : Entry) : IO Unit := do
  let path := String.ofList (pathOfLocation before.current loc)
  if before.entryAt loc = some entry then return ()
  match entry with
  | .directory => IO.FS.createDirAll path
  | .file content => IO.FS.writeBinFile path ⟨content.toArray⟩

def writeChanges (before after : FileTree) : IO Unit := do
  let isDirectory : Location × Entry → Bool := fun (_, entry) => entry == .directory
  for (loc, entry) in after.entries.filter isDirectory do
    writeEntry before loc entry
  for (loc, entry) in after.entries.filter fun e => !isDirectory e do
    writeEntry before loc entry

/-- Colors are wanted: by the environment, or because a terminal shows the output. -/
def wantsColor : IO Bool := do
  match ← IO.getEnv "CLICOLOR_FORCE", ← IO.getEnv "NO_COLOR" with
  | some force, _ => if force ≠ "0" then return true else (← IO.getStdout).isTty
  | none, some _ => return false
  | none, none => (← IO.getStdout).isTty

def seconds (milliseconds : Nat) : Text :=
  let hundredths := (milliseconds + 5) / 10
  Text.ofNat (hundredths / 100) ++
    '.' :: Text.ofNat (hundredths / 10 % 10) ++ Text.ofNat (hundredths % 10)

/-- The files that a run may see; none where the arguments ask for no run. -/
def treeFor (arguments : List Text) : IO FileTree :=
  match Options.ofArguments arguments with
  | .ok _ => readTree
  | .error _ => return ⟨[], []⟩

end SceneAudit.CommandLine

open SceneAudit CommandLine in
/-- Run the program on the listed files. -/
def main (arguments : List String) : IO UInt32 := do
  let arguments := arguments.map String.toList
  let color ← wantsColor
  let tree ← treeFor arguments
  let start ← IO.monoMsNow
  let (after, ending) := CommandLine.run tree color arguments
  writeChanges tree after
  let stop ← IO.monoMsNow
  IO.print (String.ofList (ending.output color (seconds (stop - start))))
  IO.eprint (String.ofList ending.complaint)
  return ending.status.toUInt32
