import SceneAudit.Yaml.BlockScalar
import SceneAudit.Yaml.QuotedScalar
import SceneAudit.Yaml.Tag

/-! # Tokens

A document text is cut into tokens. Indentation opens and closes block collections. Whether a scalar
is the key of a mapping shows only at the colon behind it, so the place of every possible key is
remembered, one for each open flow collection, and the key token is put in there afterwards. A
possible key stays one for at most 1024 characters on one line.
-/

namespace SceneAudit.Yaml

/-- How a scalar is written. -/
inductive ScalarStyle where
  | plain
  | singleQuoted
  | doubleQuoted
  | literal
  | folded
  deriving DecidableEq, Repr

/-- The tokens of a document text. -/
inductive Token where
  | directive (d : Directive)
  | documentStart
  | documentEnd
  | blockSequenceStart
  | blockMappingStart
  | blockEnd
  | flowSequenceStart
  | flowSequenceEnd
  | flowMappingStart
  | flowMappingEnd
  | blockEntry
  | flowEntry
  | key
  | value
  | alias (name : Text)
  | anchor (name : Text)
  | tag (handle name : Text)
  | scalar (style : ScalarStyle) (text : Text)
  deriving DecidableEq, Repr

/-- A place where a mapping key may begin: the number of tokens before it and its position. A
required key begins a line of a block mapping; nothing but a key may stand there. -/
structure PossibleKey where
  required : Bool
  tokensBefore : Nat
  index : Nat
  line : Nat
  column : Nat
  deriving DecidableEq, Repr

/-- The state of cutting a text into tokens. The tokens found so far are kept last first. -/
structure Scanner where
  cursor : Cursor
  /-- Column of the innermost block collection, -1 outside of all. -/
  indent : Int
  /-- Columns of the block collections around the innermost one. -/
  outerIndents : List Int
  /-- The possible key of the innermost flow collection or of the block around all. -/
  possibleKey : Option PossibleKey
  /-- The possible keys around the innermost flow collection, one for each that is open. -/
  outerKeys : List (Option PossibleKey)
  keyAllowed : Bool
  tokens : List Token
  /-- The number of tokens. -/
  count : Nat
  deriving Repr

namespace Scanner

def start (t : Text) : Scanner :=
  ⟨.start t, -1, [], none, [], true, [], 0⟩

def inFlow (s : Scanner) : Bool :=
  !s.outerKeys.isEmpty

def emit (s : Scanner) (t : Token) : Scanner :=
  { s with tokens := t :: s.tokens, count := s.count + 1 }

def insertAt (s : Scanner) (n : Nat) (t : Token) : Scanner :=
  let later := s.count - n
  { s with tokens := s.tokens.take later ++ t :: s.tokens.drop later, count := s.count + 1 }

def moveTo (s : Scanner) (cur : Cursor) : Scanner :=
  { s with cursor := cur }

def allowKey (s : Scanner) (allowed : Bool) : Scanner :=
  { s with keyAllowed := allowed }

/-- Open a block collection at a column right of the innermost one; `before` tells where its token
goes, at the end if absent. -/
def openBlock (s : Scanner) (column : Nat) (before : Option Nat) (t : Token) : Scanner :=
  if !s.inFlow && s.indent < column then
    let s := { s with indent := column, outerIndents := s.indent :: s.outerIndents }
    match before with
    | some n => s.insertAt n t
    | none => s.emit t
  else s

/-- Close one block collection after another while the innermost lies right of a column; the list
holds the columns around it. -/
def closeFrom (column : Int) (s : Scanner) : List Int → Scanner
  | [] => s
  | outer :: outers =>
    if column < s.indent then
      closeFrom column ({ s with indent := outer, outerIndents := outers }.emit .blockEnd) outers
    else s

def closeBlocks (s : Scanner) (column : Int) : Scanner :=
  if s.inFlow then s else closeFrom column s s.outerIndents

/-- Give up the possible key; a required one may not be given up. -/
def dropKey (s : Scanner) : Option Scanner :=
  match s.possibleKey with
  | some k => if k.required then none else some { s with possibleKey := none }
  | none => some s

/-- Remember the cursor as a place where a key may begin, if one is allowed here. -/
def saveKey (s : Scanner) : Option Scanner :=
  if s.keyAllowed then
    match s.dropKey with
    | none => none
    | some s =>
      let c := s.cursor
      let required := !s.inFlow && s.indent == c.column
      some { s with possibleKey := some ⟨required, s.count, c.index, c.line, c.column⟩ }
  else some s

/-- The possible key reaches the cursor: it is on the same line and not too far back. -/
def keyReaches (k : PossibleKey) (c : Cursor) : Bool :=
  k.line == c.line && c.index ≤ k.index + 1024

/-- Pass over white space, comments and line breaks. A line break in a block allows a key. Tabs
count as white space where no key is allowed or inside flow collections. A byte order mark may begin
a line. The answer is the cursor behind and whether a key is allowed there. -/
def spaceFrom (flow : Bool) (allowed comment : Bool) (index line column : Nat) :
    Text → Cursor × Bool
  | [] => (⟨[], index, line, column⟩, allowed)
  | '\r' :: '\n' :: t => spaceFrom flow (allowed || !flow) false (index + 2) (line + 1) 0 t
  | c :: t =>
    if isBreak c then spaceFrom flow (allowed || !flow) false (index + 1) (line + 1) 0 t
    else if comment || c == '#' then spaceFrom flow allowed true (index + 1) line (column + 1) t
    else if c == ' ' || (c == '\t' && (flow || !allowed)) || (column == 0 && c.toNat == 0xFEFF) then
      spaceFrom flow allowed false (index + 1) line (column + 1) t
    else (⟨c :: t, index, line, column⟩, allowed)

def skipSpace (s : Scanner) : Scanner :=
  let c := s.cursor
  let (cursor, allowed) := spaceFrom s.inFlow s.keyAllowed false c.index c.line c.column c.rest
  { s with cursor := cursor, keyAllowed := allowed }

def sign (s : Scanner) (t : Token) : Scanner :=
  (s.moveTo (s.cursor.skip 1)).emit t

/-- What ends everything that is open in the block: the end of the text, a directive or a document
marker. -/
def endBlocks (s : Scanner) : Option Scanner :=
  ((s.closeBlocks (-1)).dropKey).map (·.allowKey false)

def scanDirective (s : Scanner) : Option Scanner :=
  match s.endBlocks with
  | none => none
  | some s =>
    match directive s.cursor with
    | none => none
    | some (d, cur) => some ((s.moveTo cur).emit (.directive d))

def scanMarker (s : Scanner) (t : Token) : Option Scanner :=
  (s.endBlocks).map fun s => (s.moveTo (s.cursor.skip 3)).emit t

def openFlow (s : Scanner) (t : Token) : Option Scanner :=
  (s.saveKey).map fun s =>
    { (s.sign t) with
      possibleKey := none, outerKeys := s.possibleKey :: s.outerKeys, keyAllowed := true }

def closeFlow (s : Scanner) (t : Token) : Option Scanner :=
  (s.dropKey).map fun s =>
    let s := (s.sign t).allowKey false
    match s.outerKeys with
    | [] => s
    | key :: keys => { s with possibleKey := key, outerKeys := keys }

def scanFlowEntry (s : Scanner) : Option Scanner :=
  (s.dropKey).map fun s => (s.sign .flowEntry).allowKey true

def scanBlockEntry (s : Scanner) : Option Scanner :=
  if !s.inFlow && !s.keyAllowed then none
  else
    let s := s.openBlock s.cursor.column none .blockSequenceStart
    (s.dropKey).map fun s => (s.sign .blockEntry).allowKey true

def scanKey (s : Scanner) : Option Scanner :=
  if !s.inFlow && !s.keyAllowed then none
  else
    let s := s.openBlock s.cursor.column none .blockMappingStart
    (s.dropKey).map fun s => (s.sign .key).allowKey !s.inFlow

/-- The colon behind a key. If the possible key reaches it, the key's token is put in where the key
begins, and the mapping's token before it if a mapping begins there. -/
def scanValue (s : Scanner) : Option Scanner :=
  match s.possibleKey with
  | some k =>
    if keyReaches k s.cursor then
      let s := (s.insertAt k.tokensBefore .key).openBlock k.column (some k.tokensBefore)
        .blockMappingStart
      some (({ s with possibleKey := none }.sign .value).allowKey false)
    else if k.required then none
    else explicit s
  | none => explicit s
where
  /-- A colon without a key in front of it. -/
  explicit (s : Scanner) : Option Scanner :=
    if !s.inFlow && !s.keyAllowed then none
    else
      let s := { s with possibleKey := none }.openBlock s.cursor.column none .blockMappingStart
      some ((s.sign .value).allowKey !s.inFlow)

/-- A token of a name or tag, or a quoted scalar: a key may begin here, none directly behind. -/
def scanKeyed (s : Scanner) (read : Cursor → Option (Token × Cursor)) : Option Scanner :=
  match s.saveKey with
  | none => none
  | some s =>
    match read s.cursor with
    | none => none
    | some (t, cur) => some (((s.moveTo cur).emit t).allowKey false)

def scanBlockScalar (s : Scanner) (literal : Bool) : Option Scanner :=
  match s.dropKey with
  | none => none
  | some s =>
    match blockScalar literal s.indent s.cursor with
    | none => none
    | some (t, cur) =>
      some (((s.moveTo cur).emit (.scalar (if literal then .literal else .folded) t)).allowKey true)

/-- A plain scalar; a key may follow if it ended after a line break. -/
def scanPlain (s : Scanner) : Option Scanner :=
  match s.saveKey with
  | none => none
  | some s =>
    match plainScalar s.inFlow (s.indent + 1).toNat s.cursor with
    | none => none
    | some (t, cur, broken) => some (((s.moveTo cur).emit (.scalar .plain t)).allowKey broken)

def isIndicator (c : Char) : Bool :=
  "-?:,[]\x7b\x7d#&*!|>'\"%@\x60".toList.contains c

def startsPlain (flow : Bool) : Text → Bool
  | [] => false
  | c :: t =>
    (!isIndicator c && !isGap c && !isBreak c) ||
      (c == '-' && !nextIs isGap t) ||
      (!flow && (c == '?' || c == ':') && !atWordEnd t)

/-- Cut off the next token, at a cursor that stands at neither white space nor the end. -/
def scanToken (s : Scanner) : Option Scanner :=
  let flow := s.inFlow
  match s.cursor.rest with
  | [] => none
  | c :: t =>
    if s.cursor.column == 0 && c == '%' then s.scanDirective
    else if s.cursor.column == 0 && atMarker '-' (c :: t) then s.scanMarker .documentStart
    else if s.cursor.column == 0 && atMarker '.' (c :: t) then s.scanMarker .documentEnd
    else if c == '[' then s.openFlow .flowSequenceStart
    else if c == '\x7b' then s.openFlow .flowMappingStart
    else if c == ']' then s.closeFlow .flowSequenceEnd
    else if c == '\x7d' then s.closeFlow .flowMappingEnd
    else if c == ',' then s.scanFlowEntry
    else if c == '-' && atWordEnd t then s.scanBlockEntry
    else if c == '?' && (flow || atWordEnd t) then s.scanKey
    else if c == ':' && (flow || atWordEnd t) then s.scanValue
    else if c == '*' then
      s.scanKeyed fun cur => (anchorName cur).map fun (n, cur) => (.alias n, cur)
    else if c == '&' then
      s.scanKeyed fun cur => (anchorName cur).map fun (n, cur) => (.anchor n, cur)
    else if c == '!' then
      s.scanKeyed fun cur => (tagToken flow cur).map fun (h, n, cur) => (.tag h n, cur)
    else if c == '|' && !flow then s.scanBlockScalar true
    else if c == '>' && !flow then s.scanBlockScalar false
    else if c == '\'' then
      s.scanKeyed fun cur => (quotedScalar true cur).map fun (t, cur) =>
        (.scalar .singleQuoted t, cur)
    else if c == '"' then
      s.scanKeyed fun cur => (quotedScalar false cur).map fun (t, cur) =>
        (.scalar .doubleQuoted t, cur)
    else if startsPlain flow (c :: t) then s.scanPlain
    else none

/-- Cut off tokens until the end of the text. -/
def run : Nat → Scanner → Option (List Token)
  | 0, _ => none
  | fuel + 1, s =>
    let s := s.skipSpace
    let s := s.closeBlocks s.cursor.column
    match s.cursor.rest with
    | [] => (s.endBlocks).map fun s => s.tokens.reverse
    | _ :: _ =>
      match s.scanToken with
      | none => none
      | some s => run fuel s

end Scanner

/-- The tokens of a text, if it can be cut into tokens. -/
def Token.ofText? (t : Text) : Option (List Token) :=
  if t.all isAllowed then (Scanner.start t).run (t.length + 1) else none

end SceneAudit.Yaml
