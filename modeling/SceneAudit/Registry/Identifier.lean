import SceneAudit.Text.Blank

/-! # Identifiers in sidecar files

A sidecar carries the identifier of its artifact on a line `guid: <token>`. The first line of that
form decides, and the token ends at white space or at a comment sign.
-/

namespace SceneAudit.Identifier

def isGap (c : Char) : Bool :=
  c == ' ' || c == '\t'

def isTokenChar (c : Char) : Bool :=
  !Text.isBlank c && c != '#'

def keyword : Text :=
  "guid:".toList

/-- The identifier on one line, if the line has the form of an identifier line. -/
def ofLine? (line : Text) : Option Text :=
  match Text.dropStart? keyword (line.dropWhile isGap) with
  | none => none
  | some rest =>
    match (rest.dropWhile isGap).takeWhile isTokenChar with
    | [] => none
    | token => some token

/-- The identifier of a sidecar text. -/
def scan? (text : Text) : Option Text :=
  (Text.splitOn '\n' text).findSome? ofLine?

end SceneAudit.Identifier
