import SceneAudit.Text.Basic
import SceneAudit.Text.CaseTable

/-! # Lower case

The full lower-case form of a text: one character may become two, and a capital sigma becomes a
final sigma where a cased letter stands before it and none after it, looking through case-ignorable
characters.
-/

namespace SceneAudit.Text

def inRanges (ranges : List (Nat × Nat)) (c : Char) : Bool :=
  ranges.any fun (a, b) => a ≤ c.toNat && c.toNat ≤ b

def isCased (c : Char) : Bool :=
  inRanges casedRanges c

def isIgnorable (c : Char) : Bool :=
  inRanges ignorableRanges c

def lowerChar (c : Char) : Text :=
  if c.toNat < 128 then [c.toLower]
  else if c.toNat = 0x130 then ['i', Char.ofNat 0x307]
  else match lowerRanges.find? (·.covers c.toNat) with
    | some r => [Char.ofNat ((c.toNat : Int) + r.shift).toNat]
    | none => [c]

def meetsCased (t : Text) : Bool :=
  match t.dropWhile isIgnorable with
  | c :: _ => isCased c
  | [] => false

/-- Lower the text that follows a place; `afterCased` tells whether a cased letter comes last before
that place, ignorable characters aside. -/
def lowerFrom (afterCased : Bool) : Text → Text
  | [] => []
  | c :: t =>
    let lowered :=
      if c.toNat = 0x3A3 then
        [if afterCased && !meetsCased t then Char.ofNat 0x3C2 else Char.ofNat 0x3C3]
      else lowerChar c
    lowered ++ lowerFrom (if isIgnorable c then afterCased else isCased c) t

/-- The lower-case form of a text. -/
def lower (t : Text) : Text :=
  lowerFrom false t

end SceneAudit.Text
