import SceneAudit.Toml.Literal
import SceneAudit.Toml.Quoted
import SceneAudit.Toml.Value

/-! # Statements

A text is a sequence of statements, one a line: pairs of a key and a value, and headers. Arrays may
run over several lines, tables in one piece may not. Values lie within one another less than 80
levels deep, and a key has less than 80 parts.
-/

namespace SceneAudit.Toml

/-- A statement. -/
inductive Statement where
  | pair (p : Pair)
  | header (path : List Text) (key : Text)
  | arrayHeader (path : List Text) (key : Text)
  deriving Repr

def levelLimit : Nat := 80

def isBareKeyChar (c : Char) : Bool :=
  let n := c.toNat
  (48 ≤ n && n ≤ 57) || (65 ≤ n && n ≤ 90) || (97 ≤ n && n ≤ 122) || c == '_' || c == '-'

def simpleKey? (t : Text) : Option (Text × Text) :=
  if t.head? = some '"' ∨ t.head? = some '\'' then quotedLine? t
  else match t.takeWhile isBareKeyChar with
    | [] => none
    | key => some (key, t.dropWhile isBareKeyChar)

/-- The parts of a key with gaps around them; `fuel` bounds their number. -/
def keyParts? : (fuel : Nat) → Text → Option (List Text × Text)
  | 0, _ => none
  | fuel + 1, t =>
    match simpleKey? (skipGaps t) with
    | none => none
    | some (key, rest) =>
      match skipGaps rest with
      | '.' :: rest => (keyParts? fuel rest).map fun (keys, rest) => (key :: keys, rest)
      | rest => some ([key], rest)

def key? (t : Text) : Option (List Text × Text × Text) :=
  match keyParts? (levelLimit - 1) t with
  | none => none
  | some (keys, rest) => keys.getLast?.map fun last => (keys.dropLast, last, rest)

/-- A value that holds no others. -/
def plainValue? (t : Text) : Option (Value × Text) :=
  match t with
  | 't' :: 'r' :: 'u' :: 'e' :: rest => some (.bool true, rest)
  | 'f' :: 'a' :: 'l' :: 's' :: 'e' :: rest => some (.bool false, rest)
  | '"' :: _ => (quoted? t).map fun (s, rest) => (.string s, rest)
  | '\'' :: _ => (quoted? t).map fun (s, rest) => (.string s, rest)
  | _ =>
    match afterMoment? t with
    | some rest => some (.moment (t.take (t.length - rest.length)), rest)
    | none =>
      match number? t with
      | some (.integer n, rest) => some (.integer n, rest)
      | some (.float x, rest) => some (.float x, rest)
      | none => none

mutual

/-- The value in front. `levels` bounds how deep values lie within it. -/
def value? : (fuel levels : Nat) → Text → Option (Value × Text)
  | 0, _, _ => none
  | fuel + 1, levels, t =>
    match t, levels with
    | '[' :: t, levels + 1 =>
      (items? fuel levels true t).map fun (items, rest) => (.array items, rest)
    | '\x7b' :: t, levels + 1 =>
      match skipGaps t with
      | '\x7d' :: rest => some (.table .inline [], rest)
      | t =>
        match pairs? fuel levels t with
        | none => none
        | some (pairs, rest) =>
          (Entries.putAll [] pairs).map fun entries => (.table .inline entries, rest)
    | '[' :: _, 0 => none
    | '\x7b' :: _, 0 => none
    | t, _ => plainValue? t

/-- The items of an array up to its end; `next` tells that an item may follow. -/
def items? : (fuel levels : Nat) → (next : Bool) → Text → Option (List Value × Text)
  | 0, _, _, _ => none
  | fuel + 1, levels, next, t =>
    match skipSpace false t with
    | ']' :: rest => some ([], rest)
    | t =>
      if next then
        match value? fuel levels t with
        | none => none
        | some (v, rest) =>
          match skipSpace false rest with
          | ',' :: rest =>
            (items? fuel levels true rest).map fun (items, rest) => (v :: items, rest)
          | rest => (items? fuel levels false rest).map fun (items, rest) => (v :: items, rest)
      else none

/-- The pairs of a table in one piece up to its end. -/
def pairs? : (fuel levels : Nat) → Text → Option (List Pair × Text)
  | 0, _, _ => none
  | fuel + 1, levels, t =>
    match key? t with
    | some (path, key, '=' :: rest) =>
      match value? fuel levels (skipGaps rest) with
      | none => none
      | some (v, rest) =>
        match skipGaps rest with
        | '\x7d' :: rest => some ([⟨path, key, v⟩], rest)
        | ',' :: rest =>
          (pairs? fuel levels rest).map fun (ps, rest) => (⟨path, key, v⟩ :: ps, rest)
        | _ => none
    | _ => none

end

/-- The statement in front, and what follows its line. -/
def statement? (t : Text) : Option (Statement × Text) :=
  match t with
  | '[' :: '[' :: t =>
    match key? t with
    | some (path, key, ']' :: ']' :: rest) =>
      (lineEnd? rest).map fun rest => (.arrayHeader path key, rest)
    | _ => none
  | '[' :: t =>
    match key? t with
    | some (path, key, ']' :: rest) => (lineEnd? rest).map fun rest => (.header path key, rest)
    | _ => none
  | t =>
    match key? t with
    | some (path, key, '=' :: rest) =>
      match value? (2 * rest.length + 2) (levelLimit - 1) (skipGaps rest) with
      | none => none
      | some (v, rest) => (lineEnd? rest).map fun rest => (.pair ⟨path, key, v⟩, rest)
    | _ => none

/-- The statements of a text; `fuel` bounds the number of its lines. -/
def statements? : (fuel : Nat) → Text → Option (List Statement)
  | 0, _ => none
  | fuel + 1, t =>
    match skipGaps t with
    | [] => some []
    | c :: t =>
      if c == '#' || c == '\n' || c == '\r' then
        match lineEnd? (c :: t) with
        | none => none
        | some rest => statements? fuel rest
      else match statement? (c :: t) with
        | none => none
        | some (s, rest) => (statements? fuel rest).map (s :: ·)

def Statement.ofText? (t : Text) : Option (List Statement) :=
  statements? (t.length + 1) ((Text.dropStart? [Char.ofNat 0xFEFF] t).getD t)

end SceneAudit.Toml
