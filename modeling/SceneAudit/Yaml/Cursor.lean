import SceneAudit.Text.Basic

/-! # Reading positions

A cursor is the text still to be read together with the place of its first character. Places are
counted in characters; a line break of two characters is one step to the next line.
-/

namespace SceneAudit.Yaml

def isGap (c : Char) : Bool :=
  c == ' ' || c == '\t'

/-- A line break: line feed, carriage return, next line, or a line or paragraph separator. -/
def isBreak (c : Char) : Bool :=
  c == '\n' || c == '\r' || c.toNat == 0x85 || c.toNat == 0x2028 || c.toNat == 0x2029

/-- What a line break contributes to a scalar: separators stay, all others are line feeds. -/
def breakText (c : Char) : Text :=
  if c.toNat = 0x2028 ∨ c.toNat = 0x2029 then [c] else ['\n']

/-- A letter, digit, `_` or `-` of ASCII, as names of anchors and tag handles use them. -/
def isNameChar (c : Char) : Bool :=
  let n := c.toNat
  (48 ≤ n && n ≤ 57) || (65 ≤ n && n ≤ 90) || (97 ≤ n && n ≤ 122) || c == '_' || c == '-'

def isAllowed (c : Char) : Bool :=
  let n := c.toNat
  n == 9 || n == 10 || n == 13 || (0x20 ≤ n && n ≤ 0x7E) || n == 0x85 ||
    (0xA0 ≤ n && n ≤ 0xD7FF) || (0xE000 ≤ n && n ≤ 0xFFFD) || 0x10000 ≤ n

def nextIs (p : Char → Bool) : Text → Bool
  | [] => false
  | c :: _ => p c

def atWordEnd : Text → Bool
  | [] => true
  | c :: _ => isGap c || isBreak c

def atLineEnd : Text → Bool
  | [] => true
  | c :: _ => isBreak c

/-- A document marker stands in front: three times `c`, then the end of a word. -/
def atMarker (c : Char) : Text → Bool
  | x :: y :: z :: t => x == c && y == c && z == c && atWordEnd t
  | _ => false

/-- The text still to be read and the place of its first character. -/
structure Cursor where
  rest : Text
  index : Nat
  line : Nat
  column : Nat
  deriving DecidableEq, Repr

namespace Cursor

def start (t : Text) : Cursor :=
  ⟨t, 0, 0, 0⟩

def skip (c : Cursor) (n : Nat) : Cursor :=
  ⟨c.rest.drop n, c.index + n, c.line, c.column + n⟩

def goto (c : Cursor) (rest : Text) : Cursor :=
  let n := c.rest.length - rest.length
  ⟨rest, c.index + n, c.line, c.column + n⟩

def skipWhile (c : Cursor) (p : Char → Bool) : Cursor :=
  c.skip (c.rest.takeWhile p).length

def skipBreak (c : Cursor) : Cursor :=
  match c.rest with
  | '\r' :: '\n' :: t => ⟨t, c.index + 2, c.line + 1, 0⟩
  | x :: t => if isBreak x then ⟨t, c.index + 1, c.line + 1, 0⟩ else c
  | [] => c

/-- Pass over the rest of a line that may only hold white space and a comment. -/
def skipLine? (c : Cursor) : Option Cursor :=
  let c := c.skipWhile isGap
  let c := if nextIs (· == '#') c.rest then c.skipWhile fun x => !isBreak x else c
  if atLineEnd c.rest then some c.skipBreak else none

end Cursor

/-- White space between the words of a scalar: the blanks before the first break, whether there is a
break, the text of the first break and the text of those after it. -/
structure Gap where
  blanks : Text
  broken : Bool
  first : Text
  more : Text
  deriving DecidableEq, Repr

namespace Gap

def empty : Gap :=
  ⟨[], false, [], []⟩

/-- What the white space becomes between two words: a single line feed turns into a space. -/
def joined (g : Gap) : Text :=
  if g.broken then
    if g.first = ['\n'] then (if g.more = [] then [' '] else g.more) else g.first ++ g.more
  else g.blanks

def addBreak (g : Gap) (c : Char) : Gap :=
  if g.broken then { g with more := g.more ++ breakText c }
  else ⟨[], true, breakText c, g.more⟩

/-- The gap with one more blank; blanks after a break do not count. -/
def addBlank (g : Gap) (c : Char) : Gap :=
  if g.broken then g else { g with blanks := g.blanks ++ [c] }

end Gap

end SceneAudit.Yaml
