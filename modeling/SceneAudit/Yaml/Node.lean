import SceneAudit.Yaml.Token

/-! # Node trees

The tokens of a text form a document: a tree of scalars, sequences and mappings, with the anchors
and tags written at its nodes, and aliases left as they are. A text holds at most one document here.
-/

namespace SceneAudit.Yaml

/-- What may be written in front of a node. -/
structure Properties where
  anchor : Option Text
  tag : Option Text
  deriving DecidableEq, Repr

/-- A node of a document; an alias says by a value of type `α` what it stands for. -/
inductive Node (α : Type) where
  | alias (target : α)
  | scalar (props : Properties) (style : ScalarStyle) (text : Text)
  | sequence (props : Properties) (items : List (Node α))
  | mapping (props : Properties) (entries : List (Node α × Node α))
  deriving Repr

/-- A node whose aliases are names, as they are written. -/
abbrev Written := Node Text

namespace Node

/-- Handles of tags and what they stand for. -/
abbrev Handles := List (Text × Text)

def blank {α : Type} (props : Properties) : Node α :=
  .scalar props .plain []

def noProperties : Properties :=
  ⟨none, none⟩

/-- The handles that every document has, unless it gives them another meaning. -/
def standardHandles : Handles :=
  [("!".toList, "!".toList), ("!!".toList, "tag:yaml.org,2002:".toList)]

/-- The tag that a handle and a name make; a handle has to be known. -/
def resolveTag (handles : Handles) (handle name : Text) : Option Text :=
  if handle = [] then some name
  else (handles.lookup handle).map (· ++ name)

/-- The properties in front of a node: an anchor and a tag in either order. -/
def properties (handles : Handles) : List Token → Option (Properties × List Token)
  | .anchor a :: .tag h n :: rest =>
    (resolveTag handles h n).map fun t => (⟨some a, some t⟩, rest)
  | .anchor a :: rest => some (⟨some a, none⟩, rest)
  | .tag h n :: .anchor a :: rest =>
    (resolveTag handles h n).map fun t => (⟨some a, some t⟩, rest)
  | .tag h n :: rest => (resolveTag handles h n).map fun t => (⟨none, some t⟩, rest)
  | rest => some (noProperties, rest)

def withoutBareTag (props : Properties) : Properties :=
  if props.tag = some ['!'] then { props with tag := none } else props

/-- Nothing is written where one of these tokens follows a dash of a sequence. -/
def endsItem : List Token → Bool
  | .blockEntry :: _ => true
  | .blockEnd :: _ => true
  | _ => false

/-- Nothing is written where one of these tokens follows a dash of a sequence that is not indented.
-/
def endsIndentlessItem : List Token → Bool
  | .blockEntry :: _ => true
  | .key :: _ => true
  | .value :: _ => true
  | .blockEnd :: _ => true
  | _ => false

/-- Nothing is written where one of these tokens follows a key or a colon of a block mapping. -/
def endsEntryPart : List Token → Bool
  | .key :: _ => true
  | .value :: _ => true
  | .blockEnd :: _ => true
  | _ => false

/-- Nothing is written where one of these tokens follows a key of a flow collection. -/
def endsFlowKey (close : Token) : List Token → Bool
  | .value :: _ => true
  | .flowEntry :: _ => true
  | t :: _ => t == close
  | [] => false

/-- Nothing is written where one of these tokens follows a colon of a flow collection. -/
def endsFlowValue (close : Token) : List Token → Bool
  | .flowEntry :: _ => true
  | t :: _ => t == close
  | [] => false

mutual

/-- A node in front of the tokens. `block` admits block collections, `indentless` a sequence without
an indentation of its own. The first argument bounds the depth of the recursion. -/
def parse (handles : Handles) :
    Nat → (block indentless : Bool) → List Token → Option (Written × List Token)
  | 0, _, _, _ => none
  | _ + 1, _, _, .alias name :: rest => some (.alias name, rest)
  | fuel + 1, block, indentless, tokens =>
    match properties handles tokens with
    | none => none
    | some (props, tokens) =>
      match tokens with
      | .blockEntry :: _ =>
        if indentless then
          (indentlessItems handles fuel tokens).map fun (items, rest) =>
            (.sequence props items, rest)
        else blankOr props tokens
      | .scalar style text :: rest => some (.scalar (withoutBareTag props) style text, rest)
      | .flowSequenceStart :: rest =>
        (flowItems handles fuel true rest).map fun (items, rest) => (.sequence props items, rest)
      | .flowMappingStart :: rest =>
        (flowEntries handles fuel true rest).map fun (entries, rest) =>
          (.mapping props entries, rest)
      | .blockSequenceStart :: rest =>
        if block then
          (blockItems handles fuel rest).map fun (items, rest) => (.sequence props items, rest)
        else blankOr props tokens
      | .blockMappingStart :: rest =>
        if block then
          (blockEntries handles fuel rest).map fun (entries, rest) => (.mapping props entries, rest)
        else blankOr props tokens
      | _ => blankOr props tokens
where
  /-- Properties may stand alone; a node without anything may not. -/
  blankOr (props : Properties) (tokens : List Token) : Option (Written × List Token) :=
    if props = noProperties then none else some (blank props, tokens)

/-- The items of a block sequence up to its end. -/
def blockItems (handles : Handles) : Nat → List Token → Option (List Written × List Token)
  | 0, _ => none
  | _ + 1, .blockEnd :: rest => some ([], rest)
  | fuel + 1, .blockEntry :: rest =>
    let item :=
      if endsItem rest then some (blank noProperties, rest)
      else parse handles fuel true false rest
    match item with
    | none => none
    | some (node, rest) =>
      (blockItems handles fuel rest).map fun (items, rest) => (node :: items, rest)
  | _ + 1, _ => none

/-- The items of a sequence without an indentation of its own. -/
def indentlessItems (handles : Handles) : Nat → List Token → Option (List Written × List Token)
  | 0, _ => none
  | fuel + 1, .blockEntry :: rest =>
    let item :=
      if endsIndentlessItem rest then some (blank noProperties, rest)
      else parse handles fuel true false rest
    match item with
    | none => none
    | some (node, rest) =>
      (indentlessItems handles fuel rest).map fun (items, rest) => (node :: items, rest)
  | _ + 1, rest => some ([], rest)

/-- The entries of a block mapping up to its end. -/
def blockEntries (handles : Handles) :
    Nat → List Token → Option (List (Written × Written) × List Token)
  | 0, _ => none
  | _ + 1, .blockEnd :: rest => some ([], rest)
  | fuel + 1, .key :: rest =>
    let key :=
      if endsEntryPart rest then some (blank noProperties, rest)
      else parse handles fuel true true rest
    match key with
    | none => none
    | some (key, rest) =>
      let value :=
        match rest with
        | .value :: rest =>
          if endsEntryPart rest then some (blank noProperties, rest)
          else parse handles fuel true true rest
        | rest => some (blank noProperties, rest)
      match value with
      | none => none
      | some (value, rest) =>
        (blockEntries handles fuel rest).map fun (entries, rest) => ((key, value) :: entries, rest)
  | _ + 1, _ => none

/-- The items of a flow sequence up to its end; `first` tells that no comma is due. An item with a
colon is a mapping of one entry. -/
def flowItems (handles : Handles) :
    Nat → (first : Bool) → List Token → Option (List Written × List Token)
  | 0, _, _ => none
  | _ + 1, _, .flowSequenceEnd :: rest => some ([], rest)
  | fuel + 1, false, .flowEntry :: rest =>
    match rest with
    | .flowSequenceEnd :: rest => some ([], rest)
    | .flowEntry :: _ => none
    | rest => flowItems handles fuel true rest
  | _ + 1, false, _ => none
  | fuel + 1, true, .key :: rest =>
    let key :=
      if endsFlowKey .flowSequenceEnd rest then some (blank noProperties, rest.drop 1)
      else parse handles fuel false false rest
    match key with
    | none => none
    | some (key, rest) =>
      match flowValue handles fuel .flowSequenceEnd rest with
      | none => none
      | some (value, rest) =>
        (flowItems handles fuel false rest).map fun (items, rest) =>
          (.mapping noProperties [(key, value)] :: items, rest)
  | fuel + 1, true, rest =>
    match parse handles fuel false false rest with
    | none => none
    | some (node, rest) =>
      (flowItems handles fuel false rest).map fun (items, rest) => (node :: items, rest)

def flowValue (handles : Handles) : Nat → Token → List Token → Option (Written × List Token)
  | 0, _, _ => none
  | fuel + 1, close, .value :: rest =>
    if endsFlowValue close rest then some (blank noProperties, rest)
    else parse handles fuel false false rest
  | _ + 1, _, rest => some (blank noProperties, rest)

/-- The entries of a flow mapping up to its end; `first` tells that no comma is due. -/
def flowEntries (handles : Handles) :
    Nat → (first : Bool) → List Token → Option (List (Written × Written) × List Token)
  | 0, _, _ => none
  | _ + 1, _, .flowMappingEnd :: rest => some ([], rest)
  | fuel + 1, false, .flowEntry :: rest =>
    match rest with
    | .flowMappingEnd :: rest => some ([], rest)
    | .flowEntry :: _ => none
    | rest => flowEntries handles fuel true rest
  | _ + 1, false, _ => none
  | fuel + 1, true, .key :: rest =>
    let key :=
      if endsFlowKey .flowMappingEnd rest then some (blank noProperties, rest)
      else parse handles fuel false false rest
    match key with
    | none => none
    | some (key, rest) =>
      match flowValue handles fuel .flowMappingEnd rest with
      | none => none
      | some (value, rest) =>
        (flowEntries handles fuel false rest).map fun (entries, rest) =>
          ((key, value) :: entries, rest)
  | fuel + 1, true, rest =>
    match parse handles fuel false false rest with
    | none => none
    | some (key, rest) =>
      (flowEntries handles fuel false rest).map fun (entries, rest) =>
        ((key, blank noProperties) :: entries, rest)

end

/-- The directives of a document: one version at most, of the first major version, and handles that
are given one meaning each. -/
def directives : (versioned : Bool) → Handles → List Token → Option (Handles × List Token)
  | versioned, handles, .directive (.version major minor) :: rest =>
    if versioned || major != 1 || (minor != 1 && minor != 2) then none
    else directives true handles rest
  | versioned, handles, .directive (.tag handle start) :: rest =>
    if (handles.lookup handle).isSome then none
    else directives versioned ((handle, start) :: handles) rest
  | _, handles, rest => some (handles, rest)

def endsContent : List Token → Bool
  | [] => true
  | .directive _ :: _ => true
  | .documentStart :: _ => true
  | .documentEnd :: _ => true
  | _ => false

def depthBound (tokens : List Token) : Nat :=
  2 * tokens.length + 2

/-- The content of the document in front, and what follows it. -/
def document (tokens : List Token) : Option (Written × List Token) :=
  match directives false [] tokens with
  | none => none
  | some (given, rest) =>
    let handles := given ++ standardHandles
    match rest with
    | .documentStart :: rest =>
      if endsContent rest then some (blank noProperties, rest)
      else parse handles (depthBound rest) true false rest
    | rest =>
      if rest.length = tokens.length then parse handles (depthBound rest) true false rest else none

/-- The document that tokens form: `some none` for a text without a document. -/
def ofTokens? (tokens : List Token) : Option (Option Written) :=
  match tokens with
  | [] => some none
  | tokens =>
    match document tokens with
    | none => none
    | some (node, rest) => if rest.all (· == .documentEnd) then some (some node) else none

/-- The document of a text: `some none` for a text without one. -/
def ofText? (t : Text) : Option (Option Written) :=
  (Token.ofText? t).bind ofTokens?

end Node

end SceneAudit.Yaml
