import SceneAudit.Text.Blank

/-! # Lexemes

A script is cut into lexemes: white space, comments, directives, words, literals and signs. Nothing
of the text is lost. A literal in quotes may have holes with expressions, which may have literals of
their own.
-/

namespace SceneAudit.Script

/-- The kinds of lexemes. -/
inductive LexemeKind where
  | blank
  | comment
  | directive
  | word
  | literal
  | sign
  deriving DecidableEq, Repr

/-- A piece of a script. -/
structure Lexeme where
  kind : LexemeKind
  text : Text
  deriving DecidableEq, Repr

def isSpace (c : Char) : Bool :=
  Text.isBlank c || c.toNat == 0xFEFF

/-- A character of a word: a letter, a digit, an underscore, or a backslash of an escaped letter. -/
def isWordChar (c : Char) : Bool :=
  let n := c.toNat
  (48 ≤ n && n ≤ 57) || (65 ≤ n && n ≤ 90) || (97 ≤ n && n ≤ 122) || c == '_' || c == '\\' ||
    (0x80 ≤ n && !isSpace c)

/-- What is open while a literal is passed over. -/
inductive Frame where
  /-- Text between quotes. In verbatim text a quote is written twice and a backslash is none; text
  with holes has expressions between braces. -/
  | quoted (verbatim holes : Bool)
  /-- Text between runs of quotes of a given length. -/
  | raw (quotes : Nat)
  | character
  /-- An expression inside a literal, with the number of braces open in it. -/
  | hole (depth : Nat)
  deriving DecidableEq, Repr

def quoteRun (t : Text) : Nat :=
  (t.takeWhile (· == '"')).length

def opening? (t : Text) : Option (Frame × Nat) :=
  let marks := t.takeWhile fun c => c == '$' || c == '@'
  let quotes := quoteRun (t.drop marks.length)
  if quotes = 0 then
    if t.head? = some '\'' then some (.character, 1) else none
  else if marks.contains '@' then some (.quoted true (marks.contains '$'), marks.length + 1)
  else if 3 ≤ quotes then some (.raw quotes, marks.length + quotes)
  else some (.quoted false (marks.contains '$'), marks.length + 1)

def inFront (c : Char) (parts : Text × Text) : Text × Text :=
  (c :: parts.1, parts.2)

def beginsWith (c : Char) (t : Text) : Bool :=
  t.head? == some c

/-- Divide a text behind the literal whose frames are open, the innermost first; `skip` characters
are passed over without a look. -/
def literalFrom : List Frame → (skip : Nat) → Text → Text × Text
  | _, _, [] => ([], [])
  | frames, skip + 1, c :: t => inFront c (literalFrom frames skip t)
  | [], 0, c :: t => ([], c :: t)
  | .quoted verbatim holes :: frames, 0, c :: t =>
    let same := Frame.quoted verbatim holes :: frames
    if c == '\\' && !verbatim then inFront c (literalFrom same 1 t)
    else if c == '"' then
      if verbatim && beginsWith '"' t then inFront c (literalFrom same 1 t)
      else inFront c (literalFrom frames 0 t)
    else if holes && c == '\x7b' then
      if beginsWith '\x7b' t then inFront c (literalFrom same 1 t)
      else inFront c (literalFrom (.hole 0 :: same) 0 t)
    else inFront c (literalFrom same 0 t)
  | .raw quotes :: frames, 0, c :: t =>
    if quotes ≤ quoteRun (c :: t) then
      inFront c (literalFrom frames (quoteRun (c :: t) - 1) t)
    else inFront c (literalFrom (.raw quotes :: frames) (quoteRun (c :: t) - 1) t)
  | .character :: frames, 0, c :: t =>
    if c == '\\' then inFront c (literalFrom (.character :: frames) 1 t)
    else if c == '\'' then inFront c (literalFrom frames 0 t)
    else inFront c (literalFrom (.character :: frames) 0 t)
  | .hole depth :: frames, 0, c :: t =>
    match opening? (c :: t) with
    | some (frame, length) =>
      inFront c (literalFrom (frame :: .hole depth :: frames) (length - 1) t)
    | none =>
      if c == '\x7b' then inFront c (literalFrom (.hole (depth + 1) :: frames) 0 t)
      else if c == '\x7d' then
        match depth with
        | 0 => inFront c (literalFrom frames 0 t)
        | depth + 1 => inFront c (literalFrom (.hole depth :: frames) 0 t)
      else inFront c (literalFrom (.hole depth :: frames) 0 t)

def commentFrom : Text → Text × Text
  | [] => ([], [])
  | '*' :: '/' :: t => (['*', '/'], t)
  | c :: t => inFront c (commentFrom t)

def isInLine (c : Char) : Bool :=
  c != '\n' && c != '\r'

/-- The lexeme in front of a text that is not empty, and what follows it. -/
def firstLexeme (c : Char) (t : Text) : Lexeme × Text :=
  if isSpace c then (⟨.blank, c :: t.takeWhile isSpace⟩, t.dropWhile isSpace)
  else if c == '/' && beginsWith '/' t then
    (⟨.comment, c :: t.takeWhile isInLine⟩, t.dropWhile isInLine)
  else if c == '/' && beginsWith '*' t then
    let (inside, rest) := commentFrom (t.drop 1)
    (⟨.comment, '/' :: '*' :: inside⟩, rest)
  else if c == '#' then (⟨.directive, c :: t.takeWhile isInLine⟩, t.dropWhile isInLine)
  else match opening? (c :: t) with
    | some (frame, length) =>
      let (inside, rest) := literalFrom [frame] (length - 1) t
      (⟨.literal, c :: inside⟩, rest)
    | none =>
      if isWordChar c || (c == '@' && (t.take 1).any isWordChar) then
        (⟨.word, c :: t.takeWhile isWordChar⟩, t.dropWhile isWordChar)
      else match c, t with
        | '=', '>' :: rest => (⟨.sign, ['=', '>']⟩, rest)
        | ':', ':' :: rest => (⟨.sign, [':', ':']⟩, rest)
        | c, t => (⟨.sign, [c]⟩, t)

/-- The lexemes of a text; `fuel` bounds their number. -/
def lexemesFrom : (fuel : Nat) → Text → List Lexeme
  | _, [] => []
  | 0, _ => []
  | fuel + 1, c :: t =>
    let (lexeme, rest) := firstLexeme c t
    lexeme :: lexemesFrom fuel rest

/-- The lexemes of a script. -/
def Lexeme.ofText (t : Text) : List Lexeme :=
  lexemesFrom t.length t

end SceneAudit.Script
