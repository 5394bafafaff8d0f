import SceneAudit.Text.Basic

/-! # White space

The standard's white space property, and trimming and cutting by it.
-/

namespace SceneAudit.Text

/-- White space of the standard: the controls from tab to carriage return, the spaces, and the line
and paragraph separators. -/
def isBlank (c : Char) : Bool :=
  let n := c.toNat
  (9 ≤ n && n ≤ 13) || n == 0x20 || n == 0x85 || n == 0xA0 || n == 0x1680 ||
    (0x2000 ≤ n && n ≤ 0x200A) || n == 0x2028 || n == 0x2029 || n == 0x202F || n == 0x205F ||
    n == 0x3000

def trimStart (t : Text) : Text :=
  t.dropWhile isBlank

def trimEnd (t : Text) : Text :=
  dropEnd isBlank t

def trim (t : Text) : Text :=
  trimEnd (trimStart t)

/-- The maximal runs without white space, in order. -/
def words : Text → List Text
  | [] => []
  | c :: t =>
    if isBlank c then words t
    else match t with
      | [] => [[c]]
      | d :: _ =>
        if isBlank d then [c] :: words t
        else match words t with
          | [] => [[c]]
          | w :: ws => (c :: w) :: ws

end SceneAudit.Text
