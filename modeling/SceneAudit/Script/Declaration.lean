import SceneAudit.Script.SyntaxTree
import SceneAudit.Script.TypeName

/-! # Declarations

The types that a script declares at its top level, each with its own fields and properties. Types
are looked for in namespaces and between branch directives, members in the body of their type and
between branch directives there; neither walk enters a type.
-/

namespace SceneAudit.Script

/-- A top-level type of a script. -/
structure Declaration where
  name : Text
  /-- The base list reduced to simple names. -/
  bases : List Text
  fields : List Text
  properties : List Text
  /-- The line on which the declaration begins, counted from 1. -/
  line : Nat
  deriving DecidableEq, Repr

namespace Node

def name? (n : Node) : Option Text :=
  (n.childOfRole? .name).map text

def declaratorName? (n : Node) : Option Text :=
  ((n.childOfRole? .name).or (n.childOfKind? .identifier)).map text

def declarators (n : Node) : List Node :=
  (n.childrenOfKind .variables).flatMap (childrenOfKind .declarator)

def fieldNames? (n : Node) : Option (List Text) :=
  if n.kind = .field then some (n.declarators.filterMap declaratorName?) else none

def propertyNames? (n : Node) : Option (List Text) :=
  if n.kind = .property then some n.name?.toList else none

def baseName? (n : Node) : Option Text :=
  if (TypeName.simple n.text).isEmpty then none else some (TypeName.simple n.text)

def bases (n : Node) : List Text :=
  match n.childOfKind? .baseList with
  | none => []
  | some list => (list.children.filter fun entry => entry.kind.isNamed).filterMap baseName?

def body? (n : Node) : Option Node :=
  (n.childOfRole? .body).or (n.childOfKind? .declarationList)

def members (read : Node → Option (List Text)) (n : Node) : List Text :=
  match n.body? with
  | none => []
  | some body => gatherAll read NodeKind.isRegion body.children

def declaration (n : Node) : Declaration where
  name := n.name?.getD "<anonymous>".toList
  bases := n.bases
  fields := n.members fieldNames?
  properties := n.members propertyNames?
  line := n.line

def declaration? (n : Node) : Option (List Declaration) :=
  if n.kind.isType then some [n.declaration] else none

/-- The top-level types of a compilation unit. -/
def declarations (root : Node) : List Declaration :=
  gatherAll declaration? NodeKind.isScope root.children

end Node

namespace Declaration

def derivesFromAny (d : Declaration) (baseTypes : List Text) : Bool :=
  d.bases.any fun b => baseTypes.contains b

def memberNames (d : Declaration) : List Text :=
  d.fields ++ d.properties

/-- The type that a script is about: the first with a recognized base, or else the first. -/
def primary? (baseTypes : List Text) (types : List Declaration) : Option Declaration :=
  match types.find? fun d => d.derivesFromAny baseTypes with
  | some d => some d
  | none => types.head?

end Declaration

end SceneAudit.Script
