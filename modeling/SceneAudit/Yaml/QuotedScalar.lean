import SceneAudit.Yaml.Cursor
import SceneAudit.Text.Decimal

/-! # Quoted scalars

Between single quotes a quote is written twice. Between double quotes a backslash begins an escape,
and before a line break it joins the lines without a space. Line breaks are folded as in plain
scalars, and a document marker may not begin a line.
-/

namespace SceneAudit.Yaml

/-- The character that a one-letter escape stands for. -/
def simpleEscape? (c : Char) : Option Char :=
  match c with
  | '0' => some '\x00'
  | 'a' => some '\x07'
  | 'b' => some '\x08'
  | 't' => some '\t'
  | '\t' => some '\t'
  | 'n' => some '\n'
  | 'v' => some '\x0b'
  | 'f' => some '\x0c'
  | 'r' => some '\r'
  | 'e' => some '\x1b'
  | ' ' => some ' '
  | '"' => some '"'
  | '/' => some '/'
  | '\\' => some '\\'
  | 'N' => some (Char.ofNat 0x85)
  | '_' => some (Char.ofNat 0xA0)
  | 'L' => some (Char.ofNat 0x2028)
  | 'P' => some (Char.ofNat 0x2029)
  | _ => none

/-- The character that hexadecimal digits stand for; surrogates are refused. -/
def hexEscape? (digits : Text) : Option Char :=
  match Text.readNat? 16 digits with
  | none => none
  | some v =>
    if (0xD800 ≤ v && v ≤ 0xDFFF) || 0x10FFFF < v then none else some (Char.ofNat v)

/-- What white space becomes inside a quoted scalar, in front of what has been read. -/
def closeGap (gap : Option Gap) (acc : Text) : Text :=
  (gap.getD .empty).joined.reverse ++ acc

/-- The rest of a single-quoted scalar up to the closing quote. -/
def singleFrom (acc : Text) (gap : Option Gap) (index line column : Nat) :
    Text → Option (Text × Cursor)
  | [] => none
  | '\r' :: '\n' :: t =>
    singleFrom acc (some ((gap.getD .empty).addBreak '\n')) (index + 2) (line + 1) 0 t
  | '\'' :: '\'' :: t => singleFrom ('\'' :: closeGap gap acc) none (index + 2) line (column + 2) t
  | c :: t =>
    if isBreak c then
      singleFrom acc (some ((gap.getD .empty).addBreak c)) (index + 1) (line + 1) 0 t
    else if isGap c then
      singleFrom acc (some ((gap.getD .empty).addBlank c)) (index + 1) line (column + 1) t
    else if column == 0 && (atMarker '-' (c :: t) || atMarker '.' (c :: t)) then none
    else if c == '\'' then some ((closeGap gap acc).reverse, ⟨t, index + 1, line, column + 1⟩)
    else singleFrom (c :: closeGap gap acc) none (index + 1) line (column + 1) t

/-- The rest of a double-quoted scalar up to the closing quote. -/
def doubleFrom (acc : Text) (gap : Option Gap) (index line column : Nat) :
    Text → Option (Text × Cursor)
  | [] => none
  | '\r' :: '\n' :: t =>
    doubleFrom acc (some ((gap.getD .empty).addBreak '\n')) (index + 2) (line + 1) 0 t
  | '\\' :: '\r' :: '\n' :: t =>
    doubleFrom (closeGap gap acc) (some ⟨[], true, [], []⟩) (index + 3) (line + 1) 0 t
  | '\\' :: 'x' :: a :: b :: t =>
    match hexEscape? [a, b] with
    | none => none
    | some e => doubleFrom (e :: closeGap gap acc) none (index + 4) line (column + 4) t
  | '\\' :: 'u' :: a :: b :: c :: d :: t =>
    match hexEscape? [a, b, c, d] with
    | none => none
    | some e => doubleFrom (e :: closeGap gap acc) none (index + 6) line (column + 6) t
  | '\\' :: 'U' :: a :: b :: c :: d :: e :: f :: g :: h :: t =>
    match hexEscape? [a, b, c, d, e, f, g, h] with
    | none => none
    | some e => doubleFrom (e :: closeGap gap acc) none (index + 10) line (column + 10) t
  | '\\' :: c :: t =>
    if isBreak c then
      doubleFrom (closeGap gap acc) (some ⟨[], true, [], []⟩) (index + 2) (line + 1) 0 t
    else match simpleEscape? c with
      | none => none
      | some e => doubleFrom (e :: closeGap gap acc) none (index + 2) line (column + 2) t
  | c :: t =>
    if isBreak c then
      doubleFrom acc (some ((gap.getD .empty).addBreak c)) (index + 1) (line + 1) 0 t
    else if isGap c then
      doubleFrom acc (some ((gap.getD .empty).addBlank c)) (index + 1) line (column + 1) t
    else if column == 0 && (atMarker '-' (c :: t) || atMarker '.' (c :: t)) then none
    else if c == '"' then some ((closeGap gap acc).reverse, ⟨t, index + 1, line, column + 1⟩)
    else if c == '\\' then none
    else doubleFrom (c :: closeGap gap acc) none (index + 1) line (column + 1) t

def quotedScalar (single : Bool) (cur : Cursor) : Option (Text × Cursor) :=
  let c := cur.skip 1
  if single then singleFrom [] none c.index c.line c.column c.rest
  else doubleFrom [] none c.index c.line c.column c.rest

end SceneAudit.Yaml
