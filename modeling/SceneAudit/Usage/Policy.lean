import SceneAudit.Usage.MemberName

/-! # Usage policies

A component whose script exists is judged by the serialized fields of the component and the members
of the script's primary type.
-/

namespace SceneAudit

/-- How a component with an existing script is judged. -/
inductive UsagePolicy where
  /-- Every such component uses its script. -/
  | preserve
  /-- A script with declared members needs a serialized field that matches one of them. -/
  | strict
  deriving DecidableEq, Repr

namespace UsagePolicy

def word : UsagePolicy → Text
  | .preserve => "preserve".toList
  | .strict => "strict".toList

def ofWord? (text : Text) : Option UsagePolicy :=
  if text = word .preserve then some .preserve
  else if text = word .strict then some .strict
  else none

end UsagePolicy

/-- Normalized member names of a script's primary type. -/
structure SymbolTable where
  declaresType : Bool
  symbols : List Text
  deriving DecidableEq, Repr

namespace SymbolTable

def empty : SymbolTable :=
  ⟨false, []⟩

def matchesAny (table : SymbolTable) (fields : List Text) : Bool :=
  fields.any fun f => table.symbols.contains (MemberName.normalize f)

/-- The verdict on a component whose script exists. -/
def decide (policy : UsagePolicy) (table : SymbolTable) (fields : List Text) : Bool :=
  match policy with
  | .preserve => true
  | .strict => !table.declaresType || table.symbols.isEmpty || table.matchesAny fields

end SymbolTable

end SceneAudit
