import SceneAudit.Yaml.Cursor

/-! # Plain scalars

A plain scalar is a sequence of words. A word ends at white space, at a colon before the end of a
word, and inside flow collections at their signs. The white space between two words is folded; a
comment, a document marker or a lower indentation ends the scalar.
-/

namespace SceneAudit.Yaml

def isFlowSign (c : Char) : Bool :=
  c == ',' || c == '[' || c == ']' || c == '\x7b' || c == '\x7d'

def isAfterColonSign (c : Char) : Bool :=
  isFlowSign c || c == '?'

/-- White space before a text has come to an end there: a lower indentation, a document marker or a
comment follows. -/
def endsPlain (flow : Bool) (indent column : Nat) (t : Text) : Bool :=
  (!flow && column < indent) || (column == 0 && (atMarker '-' t || atMarker '.' t)) ||
    nextIs (· == '#') t

def endsWord (flow : Bool) : Text → Bool
  | [] => true
  | c :: t => (c == ':' && atWordEnd t) || (flow && isFlowSign c)

/-- The rest of a plain scalar. `acc` is what has been read, last character first; `gap` is the
white space read since, if any. `indent` is the least column of the scalar's later lines. The answer
tells also whether the scalar is followed by a line break. -/
def plainFrom (flow : Bool) (indent : Nat) (acc : Text) (gap : Option Gap)
    (index line column : Nat) : Text → Option (Text × Cursor × Bool)
  | [] => some (acc.reverse, ⟨[], index, line, column⟩, gap.any Gap.broken)
  | '\r' :: '\n' :: t =>
    plainFrom flow indent acc (some ((gap.getD .empty).addBreak '\n')) (index + 2) (line + 1) 0 t
  | c :: t =>
    if isBreak c then
      plainFrom flow indent acc (some ((gap.getD .empty).addBreak c)) (index + 1) (line + 1) 0 t
    else if isGap c then
      if gap.any Gap.broken && c == '\t' && column < indent then none
      else
        plainFrom flow indent acc (some ((gap.getD .empty).addBlank c)) (index + 1) line
          (column + 1) t
    else if gap.isSome && endsPlain flow indent column (c :: t) then
      some (acc.reverse, ⟨c :: t, index, line, column⟩, gap.any Gap.broken)
    else if flow && c == ':' && nextIs isAfterColonSign t then none
    else if endsWord flow (c :: t) then
      some (acc.reverse, ⟨c :: t, index, line, column⟩, gap.any Gap.broken)
    else
      plainFrom flow indent (c :: ((gap.getD .empty).joined.reverse ++ acc)) none (index + 1) line
        (column + 1) t

def plainScalar (flow : Bool) (indent : Nat) (cur : Cursor) : Option (Text × Cursor × Bool) :=
  plainFrom flow indent [] none cur.index cur.line cur.column cur.rest

end SceneAudit.Yaml
