import SceneAudit.Text.Decimal

/-! # JSON texts

Values are written over several lines, each level indented by two spaces more; empty lists and
objects stay on one line. Strings escape quotes, backslashes and control characters.
-/

namespace SceneAudit.Json

/-- A value; the keys of an object keep their order. -/
inductive Value where
  | number (n : Nat)
  | string (t : Text)
  | array (items : List Value)
  | object (entries : List (Text × Value))
  deriving Repr

def hexDigit (n : Nat) : Char :=
  Nat.digitChar (n % 16)

/-- A character inside quotes. -/
def escapeChar (c : Char) : Text :=
  if c = '"' then ['\\', '"']
  else if c = '\\' then ['\\', '\\']
  else if c = '\n' then ['\\', 'n']
  else if c = '\r' then ['\\', 'r']
  else if c = '\t' then ['\\', 't']
  else if c.toNat = 8 then ['\\', 'b']
  else if c.toNat = 12 then ['\\', 'f']
  else if c.toNat < 32 then ['\\', 'u', '0', '0', hexDigit (c.toNat / 16), hexDigit c.toNat]
  else [c]

def quote (t : Text) : Text :=
  '"' :: t.flatMap escapeChar ++ ['"']

def newLine (level : Nat) : Text :=
  '\n' :: List.replicate (2 * level) ' '

namespace Value

mutual

/-- A value as written at a level. -/
def render (level : Nat) : Value → Text
  | .number n => Text.ofNat n
  | .string t => quote t
  | .array [] => ['[', ']']
  | .array (v :: vs) =>
    '[' :: newLine (level + 1) ++ render (level + 1) v ++ renderItems (level + 1) vs ++
      newLine level ++ [']']
  | .object [] => ['\x7b', '\x7d']
  | .object ((k, v) :: es) =>
    '\x7b' :: newLine (level + 1) ++ quote k ++ [':', ' '] ++ render (level + 1) v ++
      renderEntries (level + 1) es ++ newLine level ++ ['\x7d']

def renderItems (level : Nat) : List Value → Text
  | [] => []
  | v :: vs => ',' :: newLine level ++ render level v ++ renderItems level vs

def renderEntries (level : Nat) : List (Text × Value) → Text
  | [] => []
  | (k, v) :: es =>
    ',' :: newLine level ++ quote k ++ [':', ' '] ++ render level v ++ renderEntries level es

end

end Value

end SceneAudit.Json
