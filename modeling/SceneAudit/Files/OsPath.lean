import SceneAudit.Files.Path
import SceneAudit.Text.Utf8

/-! # Paths of bytes

To the system a name is made of bytes, which need not be those of a text. Only `/` and `.` have a
meaning in a path, and it is the same as in the path of a text.
-/

namespace SceneAudit

/-- A path as the system has it. -/
abbrev OsPath := Bytes

namespace OsPath

def slash : UInt8 := 0x2F

def dot : UInt8 := 0x2E

def pieces (path : OsPath) : List Bytes :=
  path.splitOn slash

def start (path : OsPath) : PathStart :=
  match pieces path with
  | [] :: _ :: _ => .root
  | p :: _ => if p = [dot] then .here else .plain
  | [] => .plain

def names (path : OsPath) : List Bytes :=
  (pieces path).filter fun p => p ≠ [] ∧ p ≠ [dot]

def same (a b : OsPath) : Bool :=
  start a = start b ∧ names a = names b

/-- The path `path` seen from `base`; an absolute `path` stands for itself. -/
def join (base path : OsPath) : OsPath :=
  if path.head? = some slash then path
  else if base = [] ∨ base.getLast? = some slash then base ++ path
  else base ++ slash :: path

def fileName? (path : OsPath) : Option Bytes :=
  (names path).getLast?.filter (· ≠ [dot, dot])

end OsPath

end SceneAudit
