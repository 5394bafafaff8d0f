import SceneAudit.Text.Blank
import SceneAudit.Text.Decimal
import SceneAudit.Text.Lines

/-! # Blocks of a scene text

A line that begins with `---` is the header of a block; the lines up to the next header are the
block's body. Lines before the first header belong to no block, and document end lines to no body.
-/

namespace SceneAudit.Scene

/-- A block as it is cut from the text. -/
structure RawBlock where
  /-- What follows `!u!` in the header. -/
  classId : Option Text
  /-- What follows `&` in the header, if that is anything. -/
  anchor : Option Text
  stripped : Bool
  /-- The lines below the header, each ended by a line feed. -/
  body : Text
  deriving DecidableEq, Repr

/-- An anchor that is a 64-bit integer is spelled in plain decimal. -/
def canonicalAnchor (word : Text) : Text :=
  match Text.readInt64? word with
  | some n => Text.ofInt n
  | none => word

namespace RawBlock

def headerMark : Text :=
  ['-', '-', '-']

def anchorOf? : Text → Option Text
  | '&' :: c :: t => some (canonicalAnchor (c :: t))
  | _ => none

def classOf? (word : Text) : Option Text :=
  Text.dropStart? ['!', 'u', '!'] word

/-- The block of a header and a body. The last word of a kind counts. -/
def ofHeader (header body : Text) : RawBlock where
  classId := ((Text.words header).filterMap classOf?).getLast?
  anchor := ((Text.words header).filterMap anchorOf?).getLast?
  stripped := (Text.words header).contains "stripped".toList
  body := body

def isDocumentEnd (line : Text) : Bool :=
  Text.trimEnd line == ['.', '.', '.']

/-- The text up to the first header among some lines, and the blocks from there on. -/
def cut : List Text → Text × List RawBlock
  | [] => ([], [])
  | line :: lines =>
    let (text, blocks) := cut lines
    match Text.dropStart? headerMark line with
    | some header => ([], ofHeader header text :: blocks)
    | none => if isDocumentEnd line then (text, blocks) else (line ++ '\n' :: text, blocks)

/-- The blocks of a text. -/
def split (text : Text) : List RawBlock :=
  (cut (Text.lines text)).2

end RawBlock

end SceneAudit.Scene
