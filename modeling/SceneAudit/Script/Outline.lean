import SceneAudit.Script.Declaration
import SceneAudit.Script.Extent

/-! # Outlines

The outline of a script is its syntax tree as far as declarations go, read from the tokens. They are
told apart by what follows their attributes and modifiers. Bodies of functions and values are passed
over, and no node is made for signs.
-/

namespace SceneAudit.Script

def isModifier (t : Token) : Bool :=
  ["abstract", "async", "const", "extern", "file", "fixed", "internal", "new", "override",
    "partial", "private", "protected", "public", "readonly", "ref", "required", "sealed", "static",
    "unsafe", "virtual", "volatile"].any t.isWord

def isGlobalAttribute : List Token → Bool
  | a :: b :: c :: _ =>
    a.isSign "[" && (b.isWord "assembly" || b.isWord "module") && c.isSign ":"
  | _ => false

/-- What follows branches that hold nothing but attributes, whose first directive has been read. -/
def afterAttributeBranches? : (fuel : Nat) → List Token → Option (List Token)
  | fuel + 1, t :: ts =>
    if t.isSign "[" && !isGlobalAttribute (t :: ts) then
      afterAttributeBranches? fuel (afterGroup 0 (t :: ts))
    else if t.opensBranch then afterAttributeBranches? fuel ts
    else if t.closesBranch then some ts
    else none
  | _, _ => none

def beginsItem : List Token → Bool
  | t :: _ => t.branch.isNone && !t.isSign "\x7d"
  | [] => false

/-- What follows branches of attributes that belong to a declaration behind them. -/
def afterAttributeRegion? : List Token → Option (List Token)
  | t :: first :: ts =>
    if t.branch = some .opens ∧ first.isSign "[" then
      match afterAttributeBranches? (ts.length + 1) (first :: ts) with
      | some rest => if beginsItem rest then some rest else none
      | none => none
    else none
  | _ => none

def afterHead : (fuel : Nat) → List Token → List Token
  | fuel + 1, t :: ts =>
    if t.isSign "[" then afterHead fuel (afterGroup 0 (t :: ts))
    else if isModifier t then afterHead fuel ts
    else match afterAttributeRegion? (t :: ts) with
      | some rest => afterHead fuel rest
      | none => t :: ts
  | _, ts => ts

def entryNodes (entry : Option Text) : List Node :=
  (entry.map (Node.leaf .other none)).toList

def commentNodes (t : Token) : List Node :=
  t.comments.map (Node.leaf .comment none)

/-- The entries of a base list and what follows them. An entry is kept as it is written; comments
between entries are nodes too, and unless `whole`, so are arguments behind a type. `entry` is the
entry begun, and `depth` and `angles` tell how many brackets of either kind are open in it. -/
def baseEntries (whole : Bool) (entry : Option Text) (depth angles : Nat) :
    List Token → List Node × List Token
  | [] => (entryNodes entry, [])
  | t :: ts =>
    let outside := depth = 0 ∧ angles = 0
    if outside ∧ (t.isSign "\x7b" ∨ t.isSign ";" ∨ t.isWord "where") then
      (entryNodes entry, t :: ts)
    else if outside ∧ t.isSign "," then
      let (entries, rest) := baseEntries whole none 0 0 ts
      (entryNodes entry ++ commentNodes t ++ entries, rest)
    else if outside ∧ t.isSign "(" ∧ whole = false ∧ entry.isSome then
      let (entries, rest) := baseEntries whole (some t.text) 1 0 ts
      (entryNodes entry ++ commentNodes t ++ entries, rest)
    else
      let inner := if t.opens then depth + 1 else if t.closes then depth - 1 else depth
      let corners :=
        if depth = 0 ∧ t.isSign "<" then angles + 1
        else if depth = 0 ∧ t.isSign ">" then angles - 1
        else angles
      match entry with
      | some e => baseEntries whole (some (e ++ t.gap ++ t.text)) inner corners ts
      | none =>
        let (entries, rest) := baseEntries whole (some t.text) inner corners ts
        (commentNodes t ++ entries, rest)

def upTo (stops : Token → Bool) (depth : Nat) : List Token → List Token
  | [] => []
  | t :: ts =>
    if depth = 0 && stops t then t :: ts
    else if t.opens then upTo stops (depth + 1) ts
    else if t.closes then upTo stops (depth - 1) ts
    else upTo stops depth ts

def endsHeader (t : Token) : Bool :=
  t.isSign "\x7b" || t.isSign ";"

def typeHeader (whole : Bool) (ts : List Token) : List Node × List Token :=
  match upTo (fun t => endsHeader t || t.isSign ":" || t.isWord "where") 0 ts with
  | t :: rest =>
    if t.isSign ":" then
      let (entries, rest) := baseEntries whole none 0 0 rest
      ([.inner .baseList none entries], upTo endsHeader 0 rest)
    else ([], upTo endsHeader 0 (t :: rest))
  | [] => ([], [])

/-- The last part of a member's name, and what follows it. Parts in front name an interface. -/
def memberName? : (fuel : Nat) → List Token → Option (Text × List Token)
  | fuel + 1, t :: ts =>
    if t.isName then
      if nextIsSign "." ts || nextIsSign "::" ts then memberName? fuel (ts.drop 1)
      else if nextIsSign "<" ts then
        match afterTypeArguments? fuel (ts.drop 1) with
        | some rest =>
          if nextIsSign "." rest then memberName? fuel (rest.drop 1) else some (t.text, ts)
        | none => some (t.text, ts)
      else some (t.text, ts)
    else none
  | _, _ => none

/-- The names behind the first one of a field declaration, and what follows the declaration. -/
def declarators : (fuel : Nat) → List Token → List Text × List Token
  | fuel + 1, ts =>
    let ts := if nextIsSign "[" ts then afterGroup 0 ts else ts
    let ts := if nextIsSign "=" ts then afterExpression ts.length 0 false (ts.drop 1) else ts
    match ts with
    | t :: name :: rest =>
      if t.isSign "," then
        let (names, rest) := declarators fuel rest
        (name.text :: names, rest)
      else ([], afterMember false 0 (t :: name :: rest))
    | ts => ([], afterMember false 0 ts)
  | _, ts => ([], ts)

def passedOver : Node :=
  .inner .other none []

def propertyNode (name : Text) : Node :=
  .inner .property none [.leaf .identifier (some .name) name]

def fieldNode (names : List Text) : Node :=
  .inner .field none [.inner .variables none
    (names.map fun name => .inner .declarator none [.leaf .identifier (some .name) name])]

/-- A member behind its attributes and modifiers, other than a type or an event. -/
def member (ts : List Token) : Node × List Token :=
  match afterType? ts.length ts with
  | none => (passedOver, afterMember false 0 ts)
  | some rest =>
    match memberName? rest.length rest with
    | none => (passedOver, afterMember false 0 rest)
    | some (name, behind) =>
      if name = "operator".toList then (passedOver, afterMember false 0 behind)
      else if name = "this".toList then (passedOver, afterProperty (afterGroup 0 behind))
      else if nextIsSign "\x7b" behind || nextIsSign "=>" behind then
        (propertyNode name, afterProperty behind)
      else if nextIsSign ";" behind || nextIsSign "," behind || nextIsSign "=" behind ||
          nextIsSign "[" behind then
        let (names, rest) := declarators behind.length behind
        (fieldNode (name :: names), rest)
      else (passedOver, afterMember false 0 behind)

def declaresRecord : List Token → Bool
  | t :: ts =>
    t.isWord "class" || t.isWord "struct" ||
      (t.isName && (ts.take 1).any fun s =>
        s.isSign "(" || s.isSign "<" || s.isSign ":" || s.isSign ";" || s.isSign "\x7b" ||
          s.isWord "where")
  | [] => false

def typeName : List Token → List Node × List Token
  | t :: ts => if t.isName then ([.leaf .identifier (some .name) t.text], ts) else ([], t :: ts)
  | [] => ([], [])

def typeNode (kind : NodeKind) (line : Nat) (children : List Node) : Node :=
  .node kind none [] line children

def dropClosing : List Token → List Token
  | t :: ts => if t.isSign "\x7d" then ts else t :: ts
  | [] => []

/-- What a declaration is, by the word behind its attributes and modifiers. -/
inductive ItemKind where
  | scope
  | type (kind : NodeKind) (rest : List Token)
  | passed
  | member
  deriving Repr

def recordKind (ts : List Token) : ItemKind :=
  if nextIsWord "struct" ts then .type .recordStructType (ts.drop 1)
  else if nextIsWord "class" ts then .type .recordType (ts.drop 1)
  else .type .recordType ts

/-- The kind of a declaration. -/
def itemKind (inType : Bool) : List Token → ItemKind
  | t :: ts =>
    if t.isWord "class" then .type .classType ts
    else if t.isWord "struct" then .type .structType ts
    else if t.isWord "record" && declaresRecord ts then recordKind ts
    else if t.isWord "namespace" && !inType then .scope
    else if t.isWord "interface" || t.isWord "enum" || t.isWord "event" || t.isSign "~" ||
        (t.isWord "delegate" && !nextIsSign "*" ts) then .passed
    else if inType then .member else .passed
  | [] => .passed

def isRecord (kind : NodeKind) : Bool :=
  kind == .recordType || kind == .recordStructType

def regionKind (t : Token) : NodeKind :=
  if t.branch = some .otherwise then .regionElse else .regionElif

mutual

/-- The declarations up to a closing brace, the end of a branch or the end of the text. -/
def items : (fuel : Nat) → (inType : Bool) → List Token → List Node × List Token
  | fuel + 1, inType, t :: ts =>
    if t.isSign "\x7d" || t.opensBranch || t.closesBranch then ([], t :: ts)
    else if t.branch = some .opens && (afterAttributeRegion? (t :: ts)).isNone then
      let (body, rest) := branches fuel inType ts
      let (nodes, rest) := items fuel inType rest
      (.inner .regionIf none body :: nodes, rest)
    else
      let (node, rest) := item fuel inType (t :: ts)
      let (nodes, rest) := items fuel inType rest
      (node :: nodes, rest)
  | _, _, ts => ([], ts)

/-- What lies behind a directive that opens a branch; the branch that follows is its last part. -/
def branches : (fuel : Nat) → (inType : Bool) → List Token → List Node × List Token
  | fuel + 1, inType, ts =>
    let (body, rest) := items fuel inType ts
    match rest with
    | t :: rest =>
      if t.opensBranch then
        let (more, rest) := branches fuel inType rest
        (body ++ [.inner (regionKind t) none more], rest)
      else if t.closesBranch then (body, rest)
      else (body, t :: rest)
    | [] => (body, [])
  | 0, _, ts => ([], ts)

/-- One declaration. -/
def item : (fuel : Nat) → (inType : Bool) → List Token → Node × List Token
  | fuel + 1, inType, t :: ts =>
    if !inType && isGlobalAttribute (t :: ts) then (passedOver, afterGroup 0 (t :: ts))
    else
      let behind := afterHead (ts.length + 1) (t :: ts)
      match itemKind inType behind with
      | .scope =>
        match upTo endsHeader 0 behind with
        | opening :: rest =>
          let (body, rest) := items fuel false rest
          if opening.isSign ";" then (.inner .namespaceFile none body, rest)
          else
            (.inner .namespaceBlock none [.inner .declarationList (some .body) body],
              dropClosing rest)
        | [] => (passedOver, [])
      | .type kind rest =>
        let (name, rest) := typeName rest
        let (baseList, rest) := typeHeader (isRecord kind) rest
        match rest with
        | opening :: rest =>
          if opening.isSign ";" then (typeNode kind t.line (name ++ baseList), rest)
          else
            let (body, rest) := items fuel true rest
            (typeNode kind t.line
              (name ++ baseList ++ [.inner .declarationList (some .body) body]), dropClosing rest)
        | [] => (typeNode kind t.line (name ++ baseList), [])
      | .passed => (passedOver, afterMember false 0 behind)
      | .member => member behind
  | _, _, ts => (passedOver, ts.drop 1)

end

/-- The declarations of a script; a token that fits nowhere is passed over. -/
def outlineFrom : (fuel : Nat) → List Token → List Node
  | fuel + 1, ts =>
    let (nodes, rest) := items (2 * ts.length + 2) false ts
    match rest with
    | [] => nodes
    | _ :: rest => nodes ++ outlineFrom fuel rest
  | 0, _ => []

/-- The syntax tree of a script. -/
def outline (t : Text) : Node :=
  let tokens := Token.ofText t
  .inner .compilationUnit none (outlineFrom (tokens.length + 1) tokens)

def Declaration.ofText (t : Text) : List Declaration :=
  (outline t).declarations

end SceneAudit.Script
