import SceneAudit.Config.Basic

/-! # Exclusion patterns

Patterns over project paths with forward slashes. A pattern without a slash tests the end or the
beginning of the path, `**/D/**` a directory anywhere, other patterns with one `**` the text on
either side of it, and everything else the whole path.
-/

namespace SceneAudit.Exclusion

def anyDepth : Text :=
  ['*', '*']

def trimSlashes (t : Text) : Text :=
  Text.dropEnd (· = '/') (t.dropWhile (· = '/'))

def directoryOf (pattern : Text) : Text :=
  trimSlashes (Text.erase "/**".toList (Text.erase "**/".toList pattern))

def underDirectory (dir path : Text) : Bool :=
  Text.occursIn ('/' :: dir ++ ['/']) path || Text.startsWith (dir ++ ['/']) path

/-- The test of a pattern `before**after` with the slashes next to the wildcard removed. -/
def matchesHalves (before after path : Text) : Bool :=
  if before = [] ∧ after = [] then true
  else if before = [] then Text.endsWith after path || Text.occursIn ('/' :: after) path
  else if after = [] then Text.startsWith before path || Text.occursIn (before ++ ['/']) path
  else
    (Text.startsWith before path || Text.occursIn ('/' :: before ++ ['/']) path) &&
      (Text.endsWith after path || Text.occursIn ('/' :: after) path)

/-- The two sides of a pattern with exactly one `**`, found from left to right. -/
def halves? (pattern : Text) : Option (Text × Text) :=
  match Text.cutAt? anyDepth pattern with
  | none => none
  | some (before, after) =>
    match Text.cutAt? anyDepth after with
    | some _ => none
    | none => some (Text.dropEnd (· = '/') before, after.dropWhile (· = '/'))

/-- A path matches a pattern. -/
def matchesPattern (pattern path : Text) : Bool :=
  if pattern.head? = some '*' ∧ ¬ pattern.contains '/' then
    Text.endsWith (pattern.drop 1) path
  else if pattern.getLast? = some '*' ∧ ¬ pattern.contains '/' then
    Text.startsWith pattern.dropLast path
  else if Text.startsWith "**/".toList pattern && Text.endsWith "/**".toList pattern then
    underDirectory (directoryOf pattern) path
  else match halves? pattern with
    | some (before, after) => matchesHalves before after path
    | none => path == pattern

/-- Some pattern of the list matches the path, backslashes read as slashes. -/
def excludes (patterns : List Text) (path : Text) : Bool :=
  patterns.any fun p => matchesPattern p (Text.replace '\\' '/' path)

end SceneAudit.Exclusion
