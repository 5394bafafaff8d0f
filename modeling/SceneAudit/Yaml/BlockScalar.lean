import SceneAudit.Yaml.PlainScalar

/-! # Block scalars

A literal scalar keeps its line breaks, a folded one joins lines of text with spaces. The first line
with text fixes the indentation unless the header does; the header also says what becomes of the
line breaks at the end.
-/

namespace SceneAudit.Yaml

/-- What becomes of the line breaks at the end of a block scalar. -/
inductive Chomping where
  | strip
  | clip
  | keep
  deriving DecidableEq, Repr

def chompingSign? : Text → Option Chomping
  | '+' :: _ => some .keep
  | '-' :: _ => some .strip
  | _ => none

/-- The indentation digit in front: absent, from 1 to 9, or a zero, which is refused. -/
def indentDigit? : Text → Option (Option Nat)
  | c :: _ =>
    if '1'.toNat ≤ c.toNat && c.toNat ≤ '9'.toNat then some (some (c.toNat - 48))
    else if c == '0' then none
    else some none
  | [] => some none

/-- The header's signs in either order: chomping, indentation and the cursor behind them. -/
def blockHeader (cur : Cursor) : Option (Chomping × Option Nat × Cursor) :=
  match chompingSign? cur.rest with
  | some chomp =>
    let cur := cur.skip 1
    match indentDigit? cur.rest with
    | none => none
    | some none => some (chomp, none, cur)
    | some (some n) => some (chomp, some n, cur.skip 1)
  | none =>
    match indentDigit? cur.rest with
    | none => none
    | some none => some (.clip, none, cur)
    | some (some n) =>
      let cur := cur.skip 1
      match chompingSign? cur.rest with
      | some chomp => some (chomp, some n, cur.skip 1)
      | none => some (.clip, some n, cur)

/-- Empty lines: their breaks, the largest indentation met and the cursor at the first line that is
not empty. `indent` is 0 while the indentation is not known. -/
def blockBreaks (indent : Nat) : Nat → Text → Nat → Cursor → Option (Text × Nat × Cursor)
  | 0, breaks, widest, cur => some (breaks, widest, cur)
  | fuel + 1, breaks, widest, cur =>
    let spaces := (cur.rest.takeWhile (· == ' ')).length
    let cur := cur.skip (if indent = 0 then spaces else min spaces (indent - cur.column))
    let widest := max widest cur.column
    if (indent = 0 || cur.column < indent) && nextIs (· == '\t') cur.rest then none
    else match cur.rest with
      | [] => some (breaks, widest, cur)
      | c :: _ =>
        if isBreak c then
          blockBreaks indent fuel (breaks ++ breakText c) widest cur.skipBreak
        else some (breaks, widest, cur)

/-- The lines of a block scalar: the text so far, the break after its last line, the breaks of the
empty lines behind it, and whether that last line begins with white space. -/
def blockLines (literal : Bool) (indent : Nat) :
    Nat → Text → Text → Text → Bool → Cursor → Option (Text × Text × Text × Cursor)
  | 0, text, lead, trail, _, cur => some (text, lead, trail, cur)
  | fuel + 1, text, lead, trail, leadBlank, cur =>
    if cur.column = indent && !cur.rest.isEmpty then
      let blank := nextIs isGap cur.rest
      let lead :=
        if !literal && lead == ['\n'] && !leadBlank && !blank then
          (if trail = [] then [' '] else [])
        else lead
      let line := cur.rest.takeWhile fun c => !isBreak c
      let cur := cur.skip line.length
      let lead' := match cur.rest with
        | [] => []
        | c :: _ => breakText c
      match blockBreaks indent (cur.rest.length + 1) [] 0 cur.skipBreak with
      | none => none
      | some (breaks, _, cur) =>
        blockLines literal indent fuel (text ++ lead ++ trail ++ line) lead' breaks blank cur
    else some (text, lead, trail, cur)

/-- A block scalar whose sign is at the cursor; `outer` is the indentation around it. -/
def blockScalar (literal : Bool) (outer : Int) (cur : Cursor) : Option (Text × Cursor) :=
  match blockHeader (cur.skip 1) with
  | none => none
  | some (chomp, digit, cur) =>
    match cur.skipLine? with
    | none => none
    | some cur =>
      let given := match digit with
        | some n => (if 0 ≤ outer then outer.toNat + n else n)
        | none => 0
      match blockBreaks given (cur.rest.length + 1) [] 0 cur with
      | none => none
      | some (breaks, widest, cur) =>
        let indent := if given = 0 then max (max widest (outer + 1).toNat) 1 else given
        match blockLines literal indent (cur.rest.length + 1) [] [] breaks false cur with
        | none => none
        | some (text, lead, trail, cur) =>
          let text := if chomp = .strip then text else text ++ lead
          some (if chomp = .keep then text ++ trail else text, cur)

end SceneAudit.Yaml
