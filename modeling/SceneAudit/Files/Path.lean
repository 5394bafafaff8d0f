import SceneAudit.Text.Order

/-! # Paths

A path is a text; what it means is its list of components. Repeated slashes, a slash at the end and
`.` components are not components, except for a `.` that begins a relative path. Paths are compared
by components.
-/

namespace SceneAudit

/-- A part of a path. -/
inductive Component where
  | root
  | here
  | up
  | name (text : Text)
  deriving DecidableEq, Repr

namespace Component

/-- Rank of the kinds of components; names come last. -/
def rank : Component → Nat
  | .root => 0
  | .here => 1
  | .up => 2
  | .name _ => 3

def compare : Component → Component → Ordering
  | .name a, .name b => Text.compare a b
  | a, b => Ord.compare a.rank b.rank

end Component

/-- How a path begins: at the root, with an explicit `.`, or with its first name. -/
inductive PathStart where
  | root
  | here
  | plain
  deriving DecidableEq, Repr

namespace Path

def split : Text → PathStart × Text
  | '/' :: body => (.root, body)
  | ['.'] => (.here, [])
  | '.' :: '/' :: body => (.here, '/' :: body)
  | body => (.plain, body)

def component? (piece : Text) : Option Component :=
  if piece = [] ∨ piece = ['.'] then none
  else if piece = ['.', '.'] then some .up
  else some (.name piece)

def bodyComponents (body : Text) : List Component :=
  (Text.splitOn '/' body).filterMap component?

def startComponents : PathStart → List Component
  | .root => [.root]
  | .here => [.here]
  | .plain => []

def components (path : Text) : List Component :=
  startComponents (split path).1 ++ bodyComponents (split path).2

def same (a b : Text) : Bool :=
  components a == components b

def compareComponents : List Component → List Component → Ordering
  | [], [] => .eq
  | [], _ :: _ => .lt
  | _ :: _, [] => .gt
  | a :: as, b :: bs =>
    match Component.compare a b with
    | .eq => compareComponents as bs
    | o => o

def compare (a b : Text) : Ordering :=
  compareComponents (components a) (components b)

def le (a b : Text) : Bool :=
  compare a b != .gt

def isAbsolute (path : Text) : Bool :=
  path.head? == some '/'

/-- The path `path` seen from `base`; an absolute `path` stands for itself. -/
def join (base path : Text) : Text :=
  if isAbsolute path then path
  else if base = [] ∨ base.getLast? = some '/' then base ++ path
  else base ++ '/' :: path

def trimFront : Text → Text
  | [] => []
  | '/' :: t => trimFront t
  | '.' :: '/' :: t => trimFront t
  | ['.'] => []
  | t => t

def trimBack (t : Text) : Text :=
  (trimFront t.reverse).reverse

def dropComponents : Nat → Text → Text
  | 0, t => t
  | n + 1, t => dropComponents n ((trimFront t).dropWhile (· ≠ '/'))

def startText : PathStart → Text
  | .root => ['/']
  | .here => ['.']
  | .plain => []

/-- What is left of `path` after `base`, if the components of `base` begin those of `path`. The text
between the remaining components stays as it is written. -/
def stripBase? (base path : Text) : Option Text :=
  let (start, body) := split path
  match components base with
  | [] => some (startText start ++ trimBack body)
  | first :: others =>
    match start with
    | .plain =>
      if (first :: others).isPrefixOf (bodyComponents body) then
        some (trimBack (trimFront (dropComponents (others.length + 1) body)))
      else none
    | _ =>
      if startComponents start = [first] ∧ others.isPrefixOf (bodyComponents body) then
        some (trimBack (trimFront (dropComponents others.length body)))
      else none

/-- The path `path` as seen from `root`, or itself outside of it, with forward slashes. -/
def relativeTo (root path : Text) : Text :=
  Text.replace '\\' '/' ((stripBase? root path).getD path)

def fileName? (path : Text) : Option Text :=
  match (components path).getLast? with
  | some (.name n) => some n
  | _ => none

/-- A name cut at its last dot; a dot that begins the name does not count. -/
def splitExtension? (name : Text) : Option (Text × Text) :=
  let ext := (name.reverse.takeWhile (· ≠ '.')).reverse
  let stem := (name.take (name.length - ext.length)).dropLast
  if stem = [] then none else some (stem, ext)

def extension? (path : Text) : Option Text :=
  match fileName? path with
  | some n => (splitExtension? n).map Prod.snd
  | none => none

def parent? (path : Text) : Option Text :=
  let (start, body) := split path
  match trimBack body with
  | [] => match start with
    | .here => some []
    | _ => none
  | body => some (startText start ++ trimBack (Text.dropEnd (· ≠ '/') body))

end Path

end SceneAudit
