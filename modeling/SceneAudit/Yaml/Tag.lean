import SceneAudit.Yaml.PlainScalar
import SceneAudit.Text.Utf8
import SceneAudit.Text.Decimal

/-! # Names, tags and directives

The parts of a document that begin with `&`, `*`, `!` and `%`.
-/

namespace SceneAudit.Yaml

def isAfterName (c : Char) : Bool :=
  c == '?' || c == ':' || c == ',' || c == ']' || c == '\x7d' || c == '%' || c == '@' ||
    c == '\x60'

def anchorName (cur : Cursor) : Option (Text × Cursor) :=
  let cur := cur.skip 1
  let name := cur.rest.takeWhile isNameChar
  let cur := cur.skip name.length
  if name.isEmpty || !(atWordEnd cur.rest || nextIs isAfterName cur.rest) then none
  else some (name, cur)

/-- A character of a tag; `verbatim` admits flow signs too. -/
def isTagChar (verbatim : Bool) (c : Char) : Bool :=
  isNameChar c || c == ';' || c == '/' || c == '?' || c == ':' || c == '@' || c == '&' ||
    c == '=' || c == '+' || c == '$' || c == '.' || c == '%' || c == '!' || c == '~' ||
    c == '*' || c == '\'' || c == '(' || c == ')' ||
    (verbatim && (c == ',' || c == '[' || c == ']'))

def sequenceLength (b : Nat) : Nat :=
  if b < 0x80 then 1 else if b / 0x20 = 6 then 2 else if b / 0x10 = 14 then 3
  else if b / 8 = 30 then 4 else 0

def escapedByte? : Text → Option (Nat × Text)
  | '%' :: a :: b :: t => (Text.readNat? 16 [a, b]).map fun n => (n, t)
  | _ => none

def escapedTail : Nat → Text → Option (Bytes × Text)
  | 0, t => some ([], t)
  | n + 1, t =>
    match escapedByte? t with
    | none => none
    | some (b, t) =>
      if b / 0x40 = 2 then (escapedTail n t).map fun (bs, t) => (UInt8.ofNat b :: bs, t)
      else none

def escapedChar? (t : Text) : Option (Bytes × Text) :=
  match escapedByte? t with
  | none => none
  | some (b, t) =>
    match sequenceLength b with
    | 0 => none
    | n + 1 => (escapedTail n t).map fun (bs, t) => (UInt8.ofNat b :: bs, t)

/-- The bytes of the longest run of tag characters, and the rest. -/
def tagBytes (verbatim : Bool) : Nat → Text → Option (Bytes × Text)
  | 0, t => some ([], t)
  | _ + 1, [] => some ([], [])
  | fuel + 1, c :: t =>
    if !isTagChar verbatim c then some ([], c :: t)
    else if c == '%' then
      match escapedChar? (c :: t) with
      | none => none
      | some (bs, t) => (tagBytes verbatim fuel t).map fun (more, t) => (bs ++ more, t)
    else (tagBytes verbatim fuel t).map fun (more, t) => (Utf8.encodeChar c ++ more, t)

/-- The longest run of tag characters as a text, after `head`. It may not be empty unless `head`
already has something. -/
def tagText (verbatim : Bool) (head : Text) (cur : Cursor) : Option (Text × Cursor) :=
  match tagBytes verbatim cur.rest.length cur.rest with
  | none => none
  | some (bytes, rest) =>
    if head.isEmpty && bytes.isEmpty then none
    else match Utf8.decode? bytes with
      | none => none
      | some t => some (head.drop 1 ++ t, cur.goto rest)

/-- A tag handle: `!`, `!!` or `!name!`, or the beginning of a tag that is no handle. -/
def tagHandle (cur : Cursor) : Text × Cursor :=
  let name := (cur.rest.drop 1).takeWhile isNameChar
  let cur := cur.skip (1 + name.length)
  if nextIs (· == '!') cur.rest then ('!' :: name ++ ['!'], cur.skip 1) else ('!' :: name, cur)

/-- The handle and the rest of a tag whose `!` is at the cursor. -/
def tagParts (cur : Cursor) : Option (Text × Text × Cursor) :=
  if nextIs (· == '<') (cur.rest.drop 1) then
    match tagText true [] (cur.skip 2) with
    | none => none
    | some (name, cur) =>
      if nextIs (· == '>') cur.rest then some ([], name, cur.skip 1) else none
  else
    let (handle, behind) := tagHandle cur
    if 2 ≤ handle.length && handle.getLast? == some '!' then
      (tagText false [] behind).map fun (name, cur) => (handle, name, cur)
    else
      match tagText false handle behind with
      | none => none
      | some ([], cur) => some ([], ['!'], cur)
      | some (name, cur) => some (['!'], name, cur)

def tagToken (flow : Bool) (cur : Cursor) : Option (Text × Text × Cursor) :=
  match tagParts cur with
  | none => none
  | some (handle, name, cur) =>
    if atWordEnd cur.rest || (flow && nextIs (· == ',') cur.rest) then some (handle, name, cur)
    else none

/-- What a directive says. -/
inductive Directive where
  | version (major minor : Nat)
  | tag (handle start : Text)
  deriving DecidableEq, Repr

def versionNumber (cur : Cursor) : Option (Nat × Cursor) :=
  let digits := cur.rest.takeWhile Text.isDigit
  if 9 < digits.length then none
  else (Text.readNat? 10 digits).map fun n => (n, cur.skip digits.length)

def versionDirective (cur : Cursor) : Option (Directive × Cursor) :=
  match versionNumber (cur.skipWhile isGap) with
  | none => none
  | some (major, cur) =>
    if nextIs (· == '.') cur.rest then
      (versionNumber (cur.skip 1)).map fun (minor, cur) => (.version major minor, cur)
    else none

/-- The value of a `%TAG` directive. -/
def tagDirective (cur : Cursor) : Option (Directive × Cursor) :=
  let cur := cur.skipWhile isGap
  if nextIs (· == '!') cur.rest then
    let (handle, cur) := tagHandle cur
    if (handle.getLast? == some '!') && nextIs isGap cur.rest then
      match tagText true [] (cur.skipWhile isGap) with
      | none => none
      | some (start, cur) =>
        if atWordEnd cur.rest then some (.tag handle start, cur) else none
    else none
  else none

/-- A directive whose `%` is at the cursor, with the rest of its line. -/
def directive (cur : Cursor) : Option (Directive × Cursor) :=
  let cur := cur.skip 1
  let name := cur.rest.takeWhile isNameChar
  let cur := cur.skip name.length
  if !atWordEnd cur.rest then none
  else
    let value :=
      if name = "YAML".toList then versionDirective cur
      else if name = "TAG".toList then tagDirective cur
      else none
    match value with
    | none => none
    | some (d, cur) => cur.skipLine?.map fun cur => (d, cur)

end SceneAudit.Yaml
