import SceneAudit.Text.Decimal

/-! # The grammar of JSON

What a text of JSON stands for: literals, decimal numbers, strings with escapes, arrays and objects,
with white space around each of them. A number is kept as its digits and its power of ten, and the
entries of an object keep their order.
-/

namespace SceneAudit.Json

/-- What a text stands for. A number is a significand times a power of ten. -/
inductive Data where
  | null
  | bool (b : Bool)
  | number (significand exponent : Int)
  | string (t : Text)
  | array (items : List Data)
  | object (entries : List (Text × Data))
  deriving Repr

def isSpace (c : Char) : Bool :=
  c == ' ' || c == '\t' || c == '\n' || c == '\r'

def isMark (c : Char) : Bool :=
  c == ',' || c == ':' || c == '[' || c == ']' || c == '\x7b' || c == '\x7d' || c == '"'

def isWord (c : Char) : Bool :=
  !isSpace c && !isMark c

/-- The digits of a number, without leading zeros, and how many of them follow the point. -/
def digits? (w : Text) : Option (Nat × Nat) :=
  let whole := w.takeWhile Text.isDigit
  if whole.head? = some '0' && whole.length ≠ 1 then none
  else match w.dropWhile Text.isDigit with
    | [] => (Text.readNat? 10 whole).map (·, 0)
    | c :: places =>
      if c = '.' && (Text.readNat? 10 whole).isSome && (Text.readNat? 10 places).isSome then
        (Text.readNat? 10 (whole ++ places)).map (·, places.length)
      else none

def exponent? : Text → Option Int
  | [] => some 0
  | c :: w => if c = 'e' || c = 'E' then Text.readInt? 10 w else none

def unsigned? (w : Text) : Option (Nat × Int) :=
  let isDigits (c : Char) : Bool := c != 'e' && c != 'E'
  match digits? (w.takeWhile isDigits), exponent? (w.dropWhile isDigits) with
  | some (n, places), some e => some (n, e - places)
  | _, _ => none

def number? : Text → Option Data
  | '-' :: w => (unsigned? w).map fun (n, e) => .number (-n) e
  | w => (unsigned? w).map fun (n, e) => .number n e

def word? (w : Text) : Option Data :=
  if w = "null".toList then some .null
  else if w = "true".toList then some (.bool true)
  else if w = "false".toList then some (.bool false)
  else number? w

def named? (c : Char) : Option Char :=
  if c = '"' || c = '\\' || c = '/' then some c
  else if c = 'b' then some (Char.ofNat 8)
  else if c = 'f' then some (Char.ofNat 12)
  else if c = 'n' then some '\n'
  else if c = 'r' then some '\r'
  else if c = 't' then some '\t'
  else none

/-- The first of two code units of a character. -/
def IsHigh (n : Nat) : Prop :=
  0xD800 ≤ n ∧ n ≤ 0xDBFF

/-- The second of two code units of a character. -/
def IsLow (n : Nat) : Prop :=
  0xDC00 ≤ n ∧ n ≤ 0xDFFF

instance : DecidablePred IsHigh := fun n =>
  inferInstanceAs (Decidable (0xD800 ≤ n ∧ n ≤ 0xDBFF))

instance : DecidablePred IsLow := fun n =>
  inferInstanceAs (Decidable (0xDC00 ≤ n ∧ n ≤ 0xDFFF))

/-- The character of two code units. -/
def paired (high low : Nat) : Char :=
  Char.ofNat (0x10000 + (high - 0xD800) * 0x400 + (low - 0xDC00))

/-- What stands between the quotes of a string. -/
inductive Inside : Text → Text → Prop
  | nil : Inside [] []
  | plain {c : Char} {t w : Text} :
      c ≠ '"' → c ≠ '\\' → 0x20 ≤ c.toNat → Inside t w → Inside (c :: t) (c :: w)
  | named {e c : Char} {t w : Text} :
      named? e = some c → Inside t w → Inside (c :: t) ('\\' :: e :: w)
  | unit {a b c d : Char} {n : Nat} {t w : Text} :
      Text.readNat? 16 [a, b, c, d] = some n → ¬IsHigh n → ¬IsLow n → Inside t w →
      Inside (Char.ofNat n :: t) ('\\' :: 'u' :: a :: b :: c :: d :: w)
  | pair {a b c d a' b' c' d' : Char} {high low : Nat} {t w : Text} :
      Text.readNat? 16 [a, b, c, d] = some high → IsHigh high →
      Text.readNat? 16 [a', b', c', d'] = some low → IsLow low → Inside t w →
      Inside (paired high low :: t)
        ('\\' :: 'u' :: a :: b :: c :: d :: '\\' :: 'u' :: a' :: b' :: c' :: d' :: w)

def Spaces (w : Text) : Prop :=
  ∀ c ∈ w, isSpace c = true

/-- What a piece of text may stand for. -/
inductive Part where
  | value (d : Data)
  /-- A value with white space around it. -/
  | element (d : Data)
  | items (ds : List Data)
  | entry (k : Text) (d : Data)
  | entries (es : List (Text × Data))

/-- A piece of text stands for something. There is one item or entry at least; arrays and objects
without any have rules of their own. -/
inductive Written : Part → Text → Prop
  | word {d : Data} {w : Text} :
      (∀ c ∈ w, isWord c = true) → word? w = some d → Written (.value d) w
  | string {t w : Text} : Inside t w → Written (.value (.string t)) ('"' :: w ++ ['"'])
  | noItems {s : Text} : Spaces s → Written (.value (.array [])) ('[' :: s ++ [']'])
  | array {ds : List Data} {w : Text} :
      Written (.items ds) w → Written (.value (.array ds)) ('[' :: w ++ [']'])
  | noEntries {s : Text} : Spaces s → Written (.value (.object [])) ('\x7b' :: s ++ ['\x7d'])
  | object {es : List (Text × Data)} {w : Text} :
      Written (.entries es) w → Written (.value (.object es)) ('\x7b' :: w ++ ['\x7d'])
  | element {d : Data} {s w s' : Text} :
      Spaces s → Written (.value d) w → Spaces s' → Written (.element d) (s ++ w ++ s')
  | item {d : Data} {w : Text} : Written (.element d) w → Written (.items [d]) w
  | items {d : Data} {ds : List Data} {w ws : Text} :
      Written (.element d) w → Written (.items ds) ws → Written (.items (d :: ds)) (w ++ ',' :: ws)
  | entry {k : Text} {d : Data} {s q s' w : Text} :
      Spaces s → Inside k q → Spaces s' → Written (.element d) w →
      Written (.entry k d) (s ++ '"' :: q ++ '"' :: s' ++ ':' :: w)
  | lastEntry {k : Text} {d : Data} {w : Text} :
      Written (.entry k d) w → Written (.entries [(k, d)]) w
  | entries {k : Text} {d : Data} {es : List (Text × Data)} {w ws : Text} :
      Written (.entry k d) w → Written (.entries es) ws →
      Written (.entries ((k, d) :: es)) (w ++ ',' :: ws)

end SceneAudit.Json
