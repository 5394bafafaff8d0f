import SceneAudit.Text.Utf8

/-! # Bytes read as text, whatever they are

Where bytes are not well formed, U+FFFD stands for each longest run of them that a character could
begin with, and for each other byte that is out of place.
-/

namespace SceneAudit.Utf8

def replacement : Char := '\uFFFD'

def first? (bytes : Bytes) : Option (Char × Nat) :=
  [1, 2, 3, 4].findSome? fun n =>
    match decode? (bytes.take n) with
    | some [c] => some (c, n)
    | _ => none

/-- Bytes that begin a character without being all of it. -/
def isBeginning : Bytes → Bool
  | [a] => 0xC2 ≤ a && a ≤ 0xF4
  | [a, b] =>
    0xE0 ≤ a && a ≤ 0xEF && isSecondOfThree a b || 0xF0 ≤ a && a ≤ 0xF4 && isSecondOfFour a b
  | [a, b, c] => 0xF0 ≤ a && a ≤ 0xF4 && isSecondOfFour a b && isTail c
  | _ => false

/-- How many bytes are replaced together. -/
def brokenLength (bytes : Bytes) : Nat :=
  (([3, 2].map bytes.take).find? isBeginning).elim 1 List.length

def lossyFrom : (skip : Nat) → Bytes → Text
  | _, [] => []
  | skip + 1, _ :: bytes => lossyFrom skip bytes
  | 0, b :: bytes =>
    match first? (b :: bytes) with
    | some (c, n) => c :: lossyFrom (n - 1) bytes
    | none => replacement :: lossyFrom (brokenLength (b :: bytes) - 1) bytes

def decodeLossy (bytes : Bytes) : Text :=
  lossyFrom 0 bytes

end SceneAudit.Utf8
