import SceneAudit.Text.Basic

/-! # UTF-8

Bytes of a text, and the text of well-formed bytes. Overlong forms, surrogates and values above the
last code point are not well formed.
-/

namespace SceneAudit

/-- The content of a file. -/
abbrev Bytes := List UInt8

namespace Utf8

def isTail (b : UInt8) : Bool :=
  0x80 ≤ b && b ≤ 0xBF

def tailBits (b : UInt8) : Nat :=
  b.toNat - 0x80

/-- The second byte of a three-byte form may not make it overlong or a surrogate. -/
def isSecondOfThree (a b : UInt8) : Bool :=
  isTail b && (a != 0xE0 || 0xA0 ≤ b) && (a != 0xED || b ≤ 0x9F)

/-- The second byte of a four-byte form may not make it overlong or too large. -/
def isSecondOfFour (a b : UInt8) : Bool :=
  isTail b && (a != 0xF0 || 0x90 ≤ b) && (a != 0xF4 || b ≤ 0x8F)

/-- The text of well-formed bytes. -/
def decode? : Bytes → Option Text
  | [] => some []
  | a :: rest =>
    if a < 0x80 then (decode? rest).map (Char.ofNat a.toNat :: ·)
    else match rest with
      | [] => none
      | b :: rest =>
        if 0xC2 ≤ a && a ≤ 0xDF then
          if isTail b then
            (decode? rest).map (Char.ofNat ((a.toNat - 0xC0) * 64 + tailBits b) :: ·)
          else none
        else match rest with
          | [] => none
          | c :: rest =>
            if 0xE0 ≤ a && a ≤ 0xEF then
              if isSecondOfThree a b && isTail c then
                (decode? rest).map
                  (Char.ofNat ((a.toNat - 0xE0) * 4096 + tailBits b * 64 + tailBits c) :: ·)
              else none
            else match rest with
              | [] => none
              | d :: rest =>
                if 0xF0 ≤ a && a ≤ 0xF4 && isSecondOfFour a b && isTail c && isTail d then
                  (decode? rest).map
                    (Char.ofNat ((a.toNat - 0xF0) * 262144 + tailBits b * 4096 +
                      tailBits c * 64 + tailBits d) :: ·)
                else none

/-- The bytes of one character. -/
def encodeChar (c : Char) : Bytes :=
  let n := c.toNat
  let byte (k : Nat) : UInt8 := UInt8.ofNat k
  if n < 0x80 then [byte n]
  else if n < 0x800 then [byte (0xC0 + n / 64), byte (0x80 + n % 64)]
  else if n < 0x10000 then
    [byte (0xE0 + n / 4096), byte (0x80 + n / 64 % 64), byte (0x80 + n % 64)]
  else
    [byte (0xF0 + n / 262144), byte (0x80 + n / 4096 % 64), byte (0x80 + n / 64 % 64),
      byte (0x80 + n % 64)]

def encode (t : Text) : Bytes :=
  t.flatMap encodeChar

end Utf8

end SceneAudit
