import SceneAudit.Number.Binary64
import SceneAudit.Text.Decimal

/-! # Numbers and dates

Digits may be parted by single underscores. Integers have 64 bits with a sign; a decimal one has no
zero in front. Dates follow the calendar.
-/

namespace SceneAudit.Toml

def startsWithChar (p : Char → Bool) : Text → Bool
  | [] => false
  | c :: _ => p c

/-- The digits in front without the underscores between them, and what follows. -/
def digitsFrom (p : Char → Bool) : Text → Text × Text
  | [] => ([], [])
  | c :: t =>
    if p c then
      let (ds, rest) := digitsFrom p t
      (c :: ds, rest)
    else if c == '_' && startsWithChar p t then digitsFrom p t
    else ([], c :: t)

def digits? (p : Char → Bool) (t : Text) : Option (Text × Text) :=
  if startsWithChar p t then some (digitsFrom p t) else none

def isDigitOf (base : Nat) (c : Char) : Bool :=
  match Text.digitValue? c with
  | some d => d < base
  | none => false

/-- A number. -/
inductive Number where
  | integer (n : Int)
  | float (x : Binary64)
  deriving DecidableEq, Repr

def bounded? (n : Int) (rest : Text) : Option (Number × Text) :=
  if Text.fitsSigned 64 n then some (.integer n, rest) else none

def basedInteger? (base : Nat) (t : Text) : Option (Number × Text) :=
  match digits? (isDigitOf base) t with
  | none => none
  | some (ds, rest) => (Text.readNat? base ds).bind fun n => bounded? n rest

def exponent? (t : Text) : Option (Int × Text) :=
  let (negative, t) := match t with
    | '+' :: t => (false, t)
    | '-' :: t => (true, t)
    | t => (false, t)
  match digits? Text.isDigit t with
  | none => none
  | some (ds, rest) =>
    (Text.readNat? 10 ds).map fun n => (if negative then -(n : Int) else n, rest)

def optionalExponent? : Text → Option (Int × Text)
  | 'e' :: t => exponent? t
  | 'E' :: t => exponent? t
  | t => some (0, t)

/-- The number nearest to a numeral; too large a positive one is refused. -/
def float? (negative : Bool) (digits : Text) (exponent : Int) : Option Number :=
  match Text.readNat? 10 digits with
  | none => none
  | some n =>
    let x := Binary64.ofNumeral ⟨negative, n, exponent⟩
    if x = .infinite false then none else some (.float x)

/-- A decimal number behind its sign. -/
def decimal? (negative : Bool) (t : Text) : Option (Number × Text) :=
  match digits? Text.isDigit t with
  | none => none
  | some (whole, rest) =>
    if whole.head? = some '0' ∧ (whole.length ≠ 1 ∨ rest.head? = some '_') then none
    else match rest with
      | '.' :: t =>
        match digits? Text.isDigit t with
        | none => none
        | some (part, rest) =>
          match optionalExponent? rest with
          | none => none
          | some (e, rest) =>
            (float? negative (whole ++ part) (e - part.length)).map fun x => (x, rest)
      | c :: t =>
        if c == 'e' || c == 'E' then
          match exponent? t with
          | none => none
          | some (e, rest) => (float? negative whole e).map fun x => (x, rest)
        else decimalInteger? whole rest
      | [] => decimalInteger? whole rest
where
  /-- A number without a point or an exponent. -/
  decimalInteger? (whole rest : Text) : Option (Number × Text) :=
    (Text.readNat? 10 whole).bind fun n => bounded? (if negative then -(n : Int) else n) rest

def signed? (negative : Bool) : Text → Option (Number × Text)
  | 'i' :: 'n' :: 'f' :: t => some (.float (.infinite negative), t)
  | 'n' :: 'a' :: 'n' :: t => some (.float .undefined, t)
  | t => decimal? negative t

def number? : Text → Option (Number × Text)
  | '0' :: 'x' :: t => basedInteger? 16 t
  | '0' :: 'o' :: t => basedInteger? 8 t
  | '0' :: 'b' :: t => basedInteger? 2 t
  | '+' :: t => signed? false t
  | '-' :: t => signed? true t
  | t => signed? false t

def twoDigits? : Text → Option (Nat × Text)
  | a :: b :: t =>
    if Text.isDigit a && Text.isDigit b then
      (Text.readNat? 10 [a, b]).map fun n => (n, t)
    else none
  | _ => none

def twoDigitsIn? (least most : Nat) (t : Text) : Option (Nat × Text) :=
  match twoDigits? t with
  | some (n, rest) => if least ≤ n && n ≤ most then some (n, rest) else none
  | none => none

def daysOf (year month : Nat) : Nat :=
  if month = 2 then
    (if year % 4 = 0 ∧ (year % 100 ≠ 0 ∨ year % 400 = 0) then 29 else 28)
  else if month = 4 ∨ month = 6 ∨ month = 9 ∨ month = 11 then 30 else 31

/-- What follows the date in front. -/
def afterDate? (t : Text) : Option Text :=
  match twoDigits? t with
  | none => none
  | some (century, t) =>
    match twoDigits? t with
    | none => none
    | some (years, t) =>
      match (Text.dropStart? ['-'] t).bind (twoDigitsIn? 1 12) with
      | none => none
      | some (month, t) =>
        match (Text.dropStart? ['-'] t).bind (twoDigitsIn? 1 31) with
        | none => none
        | some (day, t) => if day ≤ daysOf (century * 100 + years) month then some t else none

def skipFraction : Text → Text
  | '.' :: t => if startsWithChar Text.isDigit t then t.dropWhile Text.isDigit else '.' :: t
  | t => t

/-- What follows the time in front. -/
def afterTime? (t : Text) : Option Text :=
  match twoDigitsIn? 0 23 t with
  | none => none
  | some (_, t) =>
    match (Text.dropStart? [':'] t).bind (twoDigitsIn? 0 59) with
    | none => none
    | some (_, t) =>
      match (Text.dropStart? [':'] t).bind (twoDigitsIn? 0 60) with
      | none => none
      | some (_, t) => some (skipFraction t)

def afterShift? (t : Text) : Option Text :=
  match twoDigitsIn? 0 23 t with
  | none => none
  | some (_, t) => ((Text.dropStart? [':'] t).bind (twoDigitsIn? 0 59)).map Prod.snd

def afterZone? : Text → Option Text
  | 'Z' :: t => some t
  | 'z' :: t => some t
  | '+' :: t => afterShift? t
  | '-' :: t => afterShift? t
  | t => some t

def afterDayTime? : Text → Option Text
  | c :: t =>
    if c == 'T' || c == 't' || c == ' ' then
      match afterTime? t with
      | some rest => afterZone? rest
      | none => some (c :: t)
    else some (c :: t)
  | [] => some []

def afterMoment? (t : Text) : Option Text :=
  match afterDate? t with
  | some rest => afterDayTime? rest
  | none => afterTime? t

end SceneAudit.Toml
