import SceneAudit.Text.Basic

/-! # Syntax trees

A script as a tree of nodes. A node has a kind, and it may be named as a part of the node above it.
What is looked for in a tree is gathered by one walk in the order of the source: a node that is read
is not entered, and of the others only those are entered whose kind allows it.
-/

namespace SceneAudit.Script

/-- The kinds of nodes that are told apart. -/
inductive NodeKind where
  | compilationUnit
  /-- A namespace with a block of its own. -/
  | namespaceBlock
  /-- A namespace that holds the rest of its file. -/
  | namespaceFile
  | declarationList
  | regionIf
  | regionElif
  | regionElse
  | classType
  | structType
  | recordType
  | recordStructType
  | baseList
  | field
  /-- The variables that a field declares, with their type. -/
  | variables
  | declarator
  | property
  | identifier
  | comment
  /-- A word or sign that stands for itself. -/
  | sign
  | other
  deriving DecidableEq, Repr

namespace NodeKind

def isType : NodeKind → Bool
  | classType | structType | recordType | recordStructType => true
  | _ => false

def isRegion : NodeKind → Bool
  | regionIf | regionElif | regionElse => true
  | _ => false

def isScope : NodeKind → Bool
  | namespaceBlock | namespaceFile | declarationList => true
  | kind => kind.isRegion

def isNamed : NodeKind → Bool
  | sign => false
  | _ => true

end NodeKind

/-- What a node is to the node above it. -/
inductive Role where
  | name
  | body
  deriving DecidableEq, Repr

/-- A node: its kind and role, the text that it covers, the line on which it begins, and the nodes
below it. Texts are kept of nodes that are read as text, and lines of types. -/
inductive Node where
  | node (kind : NodeKind) (role : Option Role) (text : Text) (line : Nat) (children : List Node)
  deriving Repr

namespace Node

def leaf (kind : NodeKind) (role : Option Role) (text : Text) : Node :=
  .node kind role text 0 []

def inner (kind : NodeKind) (role : Option Role) (children : List Node) : Node :=
  .node kind role [] 0 children

def kind : Node → NodeKind
  | .node kind _ _ _ _ => kind

def role : Node → Option Role
  | .node _ role _ _ _ => role

def text : Node → Text
  | .node _ _ text _ _ => text

def line : Node → Nat
  | .node _ _ _ line _ => line

def children : Node → List Node
  | .node _ _ _ _ children => children

def childOfRole? (role : Role) (n : Node) : Option Node :=
  n.children.find? fun child => child.role == some role

def childOfKind? (kind : NodeKind) (n : Node) : Option Node :=
  n.children.find? fun child => child.kind == kind

def childrenOfKind (kind : NodeKind) (n : Node) : List Node :=
  n.children.filter fun child => child.kind == kind

section Gather

variable {α : Type} (read : Node → Option (List α)) (enters : NodeKind → Bool)

mutual

/-- What is read from a node, or else from the nodes below it if its kind is entered. -/
def gather : Node → List α
  | .node kind role text line children =>
    match read (.node kind role text line children) with
    | some found => found
    | none => if enters kind then gatherAll children else []

/-- What is read from nodes and from the nodes below them, one after another. -/
def gatherAll : List Node → List α
  | [] => []
  | n :: ns => gather n ++ gatherAll ns

end

end Gather

end Node

end SceneAudit.Script
