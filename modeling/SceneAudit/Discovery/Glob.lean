import SceneAudit.Text.Utf8

/-! # Globs

A glob matches paths byte by byte. A star and a question mark stay within one name; two stars that
fill a name stand for any number of directories. Classes and groups of alternatives complete it.
-/

namespace SceneAudit

/-- The parts of a glob. -/
inductive GlobToken where
  | literal (bytes : Bytes)
  /-- One byte other than a slash. -/
  | anyByte
  /-- Any bytes other than slashes. -/
  | star
  /-- Any directories in front of the path. -/
  | anyFront
  /-- Everything below a directory. -/
  | anyBelow
  /-- A slash, or any directories between two slashes. -/
  | anyBetween
  /-- One byte of some ranges, or one of none of them. -/
  | byteIn (negated : Bool) (ranges : List (UInt8 × UInt8))
  | alternatives (branches : List (List GlobToken))
  deriving Repr

namespace GlobToken

def slash : UInt8 := 47

def withinName : Bytes → List Bytes
  | [] => [[]]
  | b :: bs => (b :: bs) :: (if b == slash then [] else withinName bs)

def afterSlashes : Bytes → List Bytes
  | [] => []
  | b :: bs => if b == slash then bs :: afterSlashes bs else afterSlashes bs

def ends : Bytes → List Bytes
  | [] => [[]]
  | b :: bs => (b :: bs) :: ends bs

def afterBytes? : Bytes → Bytes → Option Bytes
  | [], bs => some bs
  | _ :: _, [] => none
  | a :: as, b :: bs => if a == b then afterBytes? as bs else none

def inRanges (ranges : List (UInt8 × UInt8)) (b : UInt8) : Bool :=
  ranges.any fun r => r.1 ≤ b && b ≤ r.2

mutual

/-- What may be left of a path behind a token. -/
def rests : GlobToken → Bytes → List Bytes
  | .literal bytes, bs => (afterBytes? bytes bs).toList
  | .anyByte, b :: bs => if b == slash then [] else [bs]
  | .star, bs => withinName bs
  | .anyFront, bs => bs :: afterSlashes bs
  | .anyBelow, b :: bs => if b == slash then ends bs else []
  | .anyBetween, b :: bs => if b == slash then bs :: afterSlashes bs else []
  | .byteIn negated ranges, b :: bs => if inRanges ranges b != negated then [bs] else []
  | .alternatives branches, bs =>
    if branches.all List.isEmpty then [bs] else restsAny branches bs
  | _, [] => []

def restsAll : List GlobToken → Bytes → List Bytes
  | [], bs => [bs]
  | t :: ts, bs => ((rests t bs).eraseDups.flatMap (restsAll ts)).eraseDups

/-- What may be left behind one of some branches; a branch without tokens does not count. -/
def restsAny : List (List GlobToken) → Bytes → List Bytes
  | [], _ => []
  | [] :: branches, bs => restsAny branches bs
  | (t :: ts) :: branches, bs => restsAll (t :: ts) bs ++ restsAny branches bs

end

/-- Tokens match a whole path. Two stars alone match every path. -/
def matchesPath (tokens : List GlobToken) (path : Bytes) : Bool :=
  match tokens with
  | [.anyFront] => true
  | tokens => (restsAll tokens path).contains []

end GlobToken

namespace Glob

/-- The rest of a class up to its closing bracket. A bracket or a minus sign in front stands for
itself. -/
def classFrom (first : Bool) (begun : Bool) (ranges : List (Char × Char)) :
    Text → Option (List (Char × Char) × Text)
  | [] => none
  | c :: t =>
    if c == ']' && !first then
      some (if begun then ('-', '-') :: ranges else ranges, t)
    else if c == '-' && !first && !begun then classFrom false true ranges t
    else if begun then
      match ranges with
      | (low, _) :: others =>
        if low.toNat ≤ c.toNat then classFrom false false ((low, c) :: others) t else none
      | [] => none
    else classFrom false false ((c, c) :: ranges) t

/-- The bytes that a range of characters stands for: the range lies between the last byte of its
first character and the first byte of its last one. -/
def byteRanges (range : Char × Char) : List (UInt8 × UInt8) :=
  let single (b : UInt8) : UInt8 × UInt8 := (b, b)
  let low := Utf8.encodeChar range.1
  let high := Utf8.encodeChar range.2
  if range.1 = range.2 then low.map single
  else match low.getLast?, high with
    | some l, h :: more => low.dropLast.map single ++ [(l, h)] ++ more.map single
    | _, _ => []

def class? (t : Text) : Option (GlobToken × Text) :=
  let negated := t.head? = some '!' ∨ t.head? = some '^'
  (classFrom true false [] (if negated then t.drop 1 else t)).map fun (ranges, rest) =>
    (.byteIn negated (ranges.reverse.flatMap byteRanges), rest)

def char (c : Char) : GlobToken :=
  .literal (Utf8.encodeChar c)

/-- A group of alternatives that is open: its branches so far and the tokens before it, each last
first. -/
structure Group where
  branches : List (List GlobToken)
  before : List GlobToken
  deriving Repr

def atNameEnd : Text → Bool
  | [] => true
  | c :: _ => c == '/'

/-- Two stars fill the end of a name: nothing follows, or inside a group the end of the branch. -/
def atBranchEnd (inGroup : Bool) : Text → Bool
  | [] => true
  | c :: _ => inGroup && (c == ',' || c == '\x7d')

/-- The token for two stars behind others, in place of one that two stars have made before. -/
def putDoubleStar (suffix : Bool) : List GlobToken → List GlobToken
  | .anyFront :: branch => .anyFront :: branch
  | .anyBelow :: branch => .anyBelow :: branch
  | _ :: branch => (if suffix then .anyBelow else .anyBetween) :: branch
  | [] => []

/-- Read two stars: the tokens of the branch afterwards, the last one first, and what follows. -/
def doubleStar (inGroup : Bool) (prev : Option Char) (branch : List GlobToken) (t : Text) :
    List GlobToken × Text :=
  let plain := (.star :: .star :: branch, t)
  if branch.isEmpty then
    if atNameEnd t then ([.anyFront], t.drop 1) else plain
  else if prev ≠ some '/' ∧ ¬ (inGroup ∧ (prev = some ',' ∨ prev = some '\x7b')) then plain
  else if atBranchEnd inGroup t then (putDoubleStar true branch, t)
  else if t.head? = some '/' then (putDoubleStar false branch, t.drop 1)
  else plain

/-- Read the tokens of a text. `groups` are open, the innermost first; `branch` holds the tokens of
the branch being read, last first; `prev` is the character before. -/
def tokensFrom : (fuel : Nat) → List Group → (branch : List GlobToken) → (prev : Option Char) →
    Text → Option (List GlobToken)
  | 0, _, _, _, _ => none
  | _ + 1, [], branch, _, [] => some branch.reverse
  | _ + 1, _ :: _, _, _, [] => none
  | fuel + 1, groups, branch, prev, c :: t =>
    if c == '?' then tokensFrom fuel groups (.anyByte :: branch) (some c) t
    else if c == '*' then
      match t with
      | '*' :: t =>
        let (branch, rest) := doubleStar (!groups.isEmpty) prev branch t
        tokensFrom fuel groups branch (some (if rest.length < t.length then '/' else '*')) rest
      | t => tokensFrom fuel groups (.star :: branch) (some c) t
    else if c == '[' then
      match class? t with
      | none => none
      | some (token, rest) => tokensFrom fuel groups (token :: branch) (some ']') rest
    else if c == '\x7b' then tokensFrom fuel (⟨[], branch⟩ :: groups) [] (some c) t
    else if c == '\x7d' then
      match groups with
      | [] => none
      | g :: groups =>
        let token := GlobToken.alternatives (branch.reverse :: g.branches).reverse
        tokensFrom fuel groups (token :: g.before) (some c) t
    else if c == ',' then
      match groups with
      | [] => tokensFrom fuel [] (char c :: branch) (some c) t
      | g :: groups =>
        let g := { g with branches := branch.reverse :: g.branches }
        tokensFrom fuel (g :: groups) [] (some c) t
    else if c == '\\' then
      match t with
      | [] => none
      | d :: t => tokensFrom fuel groups (char d :: branch) (some d) t
    else tokensFrom fuel groups (char c :: branch) (some c) t

/-- The tokens of a glob; a glob with an open class or group is refused. -/
def tokens? (t : Text) : Option (List GlobToken) :=
  tokensFrom (t.length + 1) [] [] none t

end Glob

end SceneAudit
