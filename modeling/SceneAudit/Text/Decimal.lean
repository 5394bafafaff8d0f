import SceneAudit.Text.Basic

/-! # Integers in text

Reading digits of a base, reading signed decimals that fit a given number of bits, and writing
integers in decimal.
-/

namespace SceneAudit.Text

def isDigit (c : Char) : Bool :=
  '0'.toNat ≤ c.toNat && c.toNat ≤ '9'.toNat

def digitValue? (c : Char) : Option Nat :=
  let n := c.toNat
  if 48 ≤ n && n ≤ 57 then some (n - 48)
  else if 97 ≤ n && n ≤ 122 then some (n - 87)
  else if 65 ≤ n && n ≤ 90 then some (n - 55)
  else none

def readDigitsFrom (base acc : Nat) : Text → Option Nat
  | [] => some acc
  | c :: t =>
    match digitValue? c with
    | some d => if d < base then readDigitsFrom base (acc * base + d) t else none
    | none => none

def readNat? (base : Nat) : Text → Option Nat
  | [] => none
  | c :: t => readDigitsFrom base 0 (c :: t)

def readInt? (base : Nat) : Text → Option Int
  | '+' :: t => (readNat? base t).map Int.ofNat
  | '-' :: t => (readNat? base t).map fun n => -Int.ofNat n
  | t => (readNat? base t).map Int.ofNat

def fitsSigned (bits : Nat) (n : Int) : Bool :=
  -Int.pow 2 (bits - 1) ≤ n && n < Int.pow 2 (bits - 1)

def readInt64? (t : Text) : Option Int :=
  match readInt? 10 t with
  | some n => if fitsSigned 64 n then some n else none
  | none => none

def ofNat (n : Nat) : Text :=
  Nat.toDigits 10 n

def ofInt : Int → Text
  | .ofNat n => ofNat n
  | .negSucc n => '-' :: ofNat (n + 1)

end SceneAudit.Text
