import SceneAudit.Text.Decimal
import SceneAudit.Toml.Layout

/-! # Quoted text

Text between double quotes has escapes, text between single quotes has none. Three quotes open a
text of several lines; a line end right behind them does not count. Behind a backslash at the end of
a line white space does not count either.
-/

namespace SceneAudit.Toml

/-- The character that a one-letter escape stands for. -/
def simpleEscape? (c : Char) : Option Char :=
  match c with
  | 'b' => some '\x08'
  | 't' => some '\t'
  | 'n' => some '\n'
  | 'f' => some '\x0c'
  | 'r' => some '\r'
  | '"' => some '"'
  | '\\' => some '\\'
  | _ => none

/-- The character that hexadecimal digits stand for; surrogates are refused. -/
def codePoint? (digits : Text) : Option Char :=
  match Text.readNat? 16 digits with
  | none => none
  | some v =>
    if (0xD800 ≤ v && v ≤ 0xDFFF) || 0x10FFFF < v then none else some (Char.ofNat v)

/-- The character of the escape in front, whose backslash is gone, and what follows it. -/
def escape? : Text → Option (Char × Text)
  | 'u' :: a :: b :: c :: d :: t => (codePoint? [a, b, c, d]).map fun e => (e, t)
  | 'U' :: a :: b :: c :: d :: e :: f :: g :: h :: t =>
    (codePoint? [a, b, c, d, e, f, g, h]).map fun e => (e, t)
  | c :: t => (simpleEscape? c).map fun e => (e, t)
  | [] => none

/-- The number of characters of the escape in front, whose backslash is gone. -/
def escapeLength (t : Text) : Nat :=
  match escape? t with
  | some (_, rest) => t.length - rest.length
  | none => 0

def withChar (c : Char) (found : Option (Text × Text)) : Option (Text × Text) :=
  found.map fun (s, rest) => (c :: s, rest)

/-- The rest of a text between double quotes, and what follows the closing quote. The first `skip`
characters belong to an escape and are passed over. -/
def basicFrom : (skip : Nat) → Text → Option (Text × Text)
  | _, [] => none
  | skip + 1, _ :: t => basicFrom skip t
  | 0, c :: t =>
    if c == '"' then some ([], t)
    else if c == '\\' then
      match escape? t with
      | none => none
      | some (e, _) => withChar e (basicFrom (escapeLength t) t)
    else if isPrintable c then withChar c (basicFrom 0 t)
    else none

def atLineEnd (t : Text) : Bool :=
  (newline? (skipGaps t)).isSome

def extraQuotes (quote : Char) (t : Text) : Text :=
  (t.take 2).takeWhile (· == quote)

/-- The rest of a text of several lines between double quotes. While `folding`, white space does not
count. -/
def multilineFrom : (folding : Bool) → (skip : Nat) → Text → Option (Text × Text)
  | _, _, [] => none
  | _, skip + 1, _ :: t => multilineFrom false skip t
  | folding, 0, '\r' :: '\n' :: t =>
    if folding then multilineFrom true 0 t else withChar '\n' (multilineFrom false 0 t)
  | folding, 0, c :: t =>
    if c == '\n' then
      if folding then multilineFrom true 0 t else withChar '\n' (multilineFrom false 0 t)
    else if folding && isGap c then multilineFrom true 0 t
    else if c == '\\' then
      if atLineEnd t then multilineFrom true 0 t
      else match escape? t with
        | none => none
        | some (e, _) => withChar e (multilineFrom false (escapeLength t) t)
    else if c == '"' then
      match t with
      | '"' :: '"' :: rest =>
        let extra := extraQuotes '"' rest
        some (extra, rest.drop extra.length)
      | _ => withChar '"' (multilineFrom false 0 t)
    else if isPrintable c then withChar c (multilineFrom false 0 t)
    else none

def literalFrom : Text → Option (Text × Text)
  | [] => none
  | c :: t =>
    if c == '\'' then some ([], t)
    else if isPrintable c then withChar c (literalFrom t)
    else none

def multilineLiteralFrom : Text → Option (Text × Text)
  | [] => none
  | '\r' :: '\n' :: t => withChar '\n' (multilineLiteralFrom t)
  | '\'' :: '\'' :: '\'' :: t =>
    let extra := extraQuotes '\'' t
    some (extra, t.drop extra.length)
  | c :: t =>
    if c == '\n' || isPrintable c then withChar c (multilineLiteralFrom t) else none

def skipNewline (t : Text) : Text :=
  (newline? t).getD t

def quotedLine? : Text → Option (Text × Text)
  | '"' :: t => basicFrom 0 t
  | '\'' :: t => literalFrom t
  | _ => none

def quoted? : Text → Option (Text × Text)
  | '"' :: '"' :: '"' :: t => multilineFrom false 0 (skipNewline t)
  | '\'' :: '\'' :: '\'' :: t => multilineLiteralFrom (skipNewline t)
  | t => quotedLine? t

end SceneAudit.Toml
