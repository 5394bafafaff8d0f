import SceneAudit.Discovery.Glob
import SceneAudit.Text.Blank

/-! # Ignore rules

A line of an ignore file is a rule for the paths below its directory. A rule may take back what
rules above it ignore, may be for directories only, and speaks of names at any depth unless it has a
slash. Of all rules of a file that match a path the last one counts.
-/

namespace SceneAudit

/-- A rule of an ignore file. -/
structure IgnoreRule where
  glob : List GlobToken
  /-- The rule keeps what it matches. -/
  keeps : Bool
  onlyDirectories : Bool
  deriving Repr

/-- What ignore rules say about a path. -/
inductive Verdict where
  | silent
  | ignored
  | kept
  deriving DecidableEq, Repr

namespace Verdict

def orElse (a b : Verdict) : Verdict :=
  if a = .silent then b else a

end Verdict

namespace IgnoreRule

def trimLine (line : Text) : Text :=
  if Text.endsWith ['\\', ' '] line then line else Text.trimEnd line

/-- The glob of a rule: a name without a slash may lie at any depth, and what ends in two stars
matches everything below a directory but not the directory. -/
def globText (anchored : Bool) (body : Text) : Text :=
  let deep := Text.startsWith "**/".toList body || body == "**".toList
  let body := if !anchored && !body.contains '/' && !deep then "**/".toList ++ body else body
  if Text.endsWith "/**".toList body then body ++ "/*".toList else body

/-- The body of a rule: whether it keeps, whether a slash anchors it, and the text behind. -/
def signs (line : Text) : Bool × Bool × Text :=
  match line with
  | '\\' :: '!' :: t => (false, false, '!' :: t)
  | '\\' :: '#' :: t => (false, false, '#' :: t)
  | '!' :: '/' :: t => (true, true, t)
  | '!' :: t => (true, false, t)
  | '/' :: t => (false, true, t)
  | t => (false, false, t)

/-- The text without a slash behind, and without a backslash that escapes it. -/
def withoutSlash (t : Text) : Text :=
  let t := t.dropLast
  if t.getLast? = some '\\' then t.dropLast else t

/-- The rule of a line; comments, empty lines and globs that cannot be read are none. -/
def ofLine? (line : Text) : Option IgnoreRule :=
  if line.head? = some '#' then none
  else
    let line := trimLine line
    if line = [] then none
    else
      let (keeps, anchored, body) := signs line
      let directories := body.getLast? = some '/'
      let body := if directories then withoutSlash body else body
      (Glob.tokens? (globText anchored body)).map fun glob => ⟨glob, keeps, directories⟩

/-- The lines of a file, each without its line feed and one carriage return before it. -/
def fileLines : Bytes → List Bytes
  | [] => []
  | 13 :: 10 :: t => [] :: fileLines t
  | 10 :: t => [] :: fileLines t
  | b :: t =>
    match fileLines t with
    | [] => [[b]]
    | l :: ls => (b :: l) :: ls

def textLines : List Bytes → List Text
  | [] => []
  | l :: ls =>
    match Utf8.decode? l with
    | some t => t :: textLines ls
    | none => []

def withoutMark : List Text → List Text
  | [] => []
  | l :: ls => l.dropWhile (fun c => c.toNat = 0xFEFF) :: ls

def ofFile (content : Bytes) : List IgnoreRule :=
  (withoutMark (textLines (fileLines content))).filterMap ofLine?

def matchesPath (rule : IgnoreRule) (path : Bytes) (isDirectory : Bool) : Bool :=
  (isDirectory || !rule.onlyDirectories) && GlobToken.matchesPath rule.glob path

def verdict (rules : List IgnoreRule) (path : Bytes) (isDirectory : Bool) : Verdict :=
  match rules.reverse.find? fun r => r.matchesPath path isDirectory with
  | none => .silent
  | some r => if r.keeps then .kept else .ignored

end IgnoreRule

end SceneAudit
