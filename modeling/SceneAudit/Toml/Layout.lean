import SceneAudit.Text.Basic

/-! # Layout

Gaps, line ends and comments. A line ends at a line feed, with a carriage return before it or
without; a comment runs to the end of its line and holds no control characters.
-/

namespace SceneAudit.Toml

def isGap (c : Char) : Bool :=
  c == ' ' || c == '\t'

def isPrintable (c : Char) : Bool :=
  c == '\t' || (0x20 ≤ c.toNat && c.toNat != 0x7F)

def skipGaps (t : Text) : Text :=
  t.dropWhile isGap

def newline? : Text → Option Text
  | '\n' :: t => some t
  | '\r' :: '\n' :: t => some t
  | _ => none

def skipComment (t : Text) : Text :=
  if t.head? = some '#' then t.dropWhile isPrintable else t

/-- What follows the end of a line on which only gaps and a comment are left. -/
def lineEnd? (t : Text) : Option Text :=
  match skipComment (skipGaps t) with
  | [] => some []
  | t => newline? t

/-- The text without gaps, line ends and comments in front; `comment` tells that it begins inside a
comment. -/
def skipSpace : (comment : Bool) → Text → Text
  | _, [] => []
  | _, '\n' :: t => skipSpace false t
  | _, '\r' :: '\n' :: t => skipSpace false t
  | true, c :: t => if isPrintable c then skipSpace true t else c :: t
  | false, c :: t =>
    if isGap c then skipSpace false t else if c == '#' then skipSpace true t else c :: t

end SceneAudit.Toml
