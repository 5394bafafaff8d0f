import SceneAudit.Text.Blank
import SceneAudit.Text.Lines
import SceneAudit.Yaml.Value

/-! # Properties as written

The text of a property as it stands in the body of its block: the rest of its line and the lines
below it that are blank or indented more deeply. It is what a plain scalar counts as when its type
is not a string.
-/

namespace SceneAudit.Scene

open Yaml (Value)

def depth (line : Text) : Nat :=
  (line.takeWhile (· = ' ')).length

def isIndented (line : Text) : Bool :=
  line.head? == some ' ' && line.any (· ≠ ' ')

def bodyIndent? (lines : List Text) : Option Nat :=
  (lines.find? isIndented).map depth

def afterKey? (indent : Nat) (key line : Text) : Option Text :=
  if depth line = indent then
    (Text.dropStart? key (line.drop indent)).bind (Text.dropStart? [':'])
  else none

def continues (indent : Nat) (line : Text) : Bool :=
  indent < depth line || Text.trim line == []

/-- The text of the first property with a key among lines of a given indentation. -/
def propertyIn? (indent : Nat) (key : Text) : List Text → Option Text
  | [] => none
  | line :: lines =>
    match afterKey? indent key line with
    | none => propertyIn? indent key lines
    | some rest =>
      some (Text.trim rest ++
        (lines.takeWhile (continues indent)).flatMap fun l => '\n' :: Text.trim l)

def propertyText? (body key : Text) : Option Text :=
  match bodyIndent? (Text.lines body) with
  | none => none
  | some indent => propertyIn? indent key (Text.lines body)

def isIdentifierChar (c : Char) : Bool :=
  c != ',' && c != '\x7d' && !Text.isBlank c

def identifierAt? (t : Text) : Option Text :=
  match Text.dropStart? "guid:".toList t with
  | none => none
  | some rest =>
    match (rest.dropWhile fun c => c == ' ' || c == '\t').takeWhile isIdentifierChar with
    | [] => none
    | token => some token

def identifierIn? : Text → Option Text
  | [] => none
  | c :: t =>
    match identifierAt? (c :: t) with
    | some token => some token
    | none => identifierIn? t

/-- The text of a value as written: a string's own text, and for other scalars the given text unless
it is blank. -/
def writtenText? (value : Option Value) (written : Option Text) : Option Text :=
  match value with
  | none => none
  | some v =>
    match v with
    | .scalar (.string t) => some t
    | .scalar _ =>
      match written with
      | none => none
      | some t => if Text.trim t = [] then none else some (Text.trim t)
    | _ => none

end SceneAudit.Scene
