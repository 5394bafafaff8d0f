import SceneAudit.Text.Decimal

/-! # Binary floating point

Decimal numerals are rounded to the nearest number with 53 significant bits, a tie to the even
neighbour. Numbers are kept in one form each, so that equal numbers are equal values; the sign of
zero is not kept, and there is one value that is not a number.
-/

namespace SceneAudit

/-- A decimal numeral: `digits * 10 ^ exponent`, below zero if `negative`. -/
structure Numeral where
  negative : Bool
  digits : Nat
  exponent : Int
  deriving DecidableEq, Repr

namespace Numeral

def exponent? : Text → Option Int
  | [] => some 0
  | c :: t => if c == 'e' || c == 'E' then Text.readInt? 10 t else none

def unsigned? (negative : Bool) (t : Text) : Option Numeral :=
  let whole := t.takeWhile Text.isDigit
  let (part, rest) := match t.dropWhile Text.isDigit with
    | '.' :: t => (t.takeWhile Text.isDigit, t.dropWhile Text.isDigit)
    | t => ([], t)
  match Text.readNat? 10 (whole ++ part), exponent? rest with
  | some digits, some e => some ⟨negative, digits, e - part.length⟩
  | _, _ => none

def read? : Text → Option Numeral
  | '+' :: t => unsigned? false t
  | '-' :: t => unsigned? true t
  | t => unsigned? false t

end Numeral

/-- A binary floating point number. A finite number is `mantissa * 2 ^ exponent`; its mantissa has
53 bits unless the exponent is the least one. -/
inductive Binary64 where
  | finite (mantissa exponent : Int)
  | infinite (negative : Bool)
  | undefined
  deriving DecidableEq, Repr

namespace Binary64

def bits : Nat := 53

def leastExponent : Int := -1074

def largestExponent : Int := 971

def roundDiv (num den : Nat) : Nat :=
  let q := num / den
  let r := num % den
  if 2 * r < den then q else if den < 2 * r then q + 1 else q + q % 2

/-- The `k` with `2 ^ k ≤ num / den < 2 ^ (k + 1)`, for positive numbers. -/
def magnitude (num den : Nat) : Int :=
  let k : Int := (Nat.log2 num : Int) - Nat.log2 den
  if den * Nat.pow 2 k.toNat ≤ num * Nat.pow 2 (-k).toNat then k else k - 1

/-- The number nearest to a positive quotient. -/
def ofQuotient (negative : Bool) (num den : Nat) : Binary64 :=
  let e := max (magnitude num den - (bits - 1)) leastExponent
  let m := roundDiv (num * Nat.pow 2 (-e).toNat) (den * Nat.pow 2 e.toNat)
  let (m, e) := if m = Nat.pow 2 bits then (Nat.pow 2 (bits - 1), e + 1) else (m, e)
  if largestExponent < e then .infinite negative
  else .finite (if negative then -(m : Int) else m) e

/-- The number nearest to a numeral. Numerals far out of range are decided by their number of
digits. -/
def ofNumeral (n : Numeral) : Binary64 :=
  let size : Int := (Text.ofNat n.digits).length + n.exponent
  if n.digits = 0 ∨ size < -400 then .finite 0 leastExponent
  else if 400 < size then .infinite n.negative
  else ofQuotient n.negative (n.digits * Nat.pow 10 n.exponent.toNat)
    (Nat.pow 10 (-n.exponent).toNat)

def isFinite : Binary64 → Bool
  | .finite _ _ => true
  | _ => false

end Binary64

end SceneAudit
