import SceneAudit.Text.Basic

/-! # Used identifiers

The set of identifiers that some component has confirmed as used. Marking tells whether the mark is
the first one.
-/

namespace SceneAudit

/-- Identifiers without repetition. -/
structure UsedSet where
  identifiers : List Text
  deriving Repr

namespace UsedSet

def empty : UsedSet :=
  ⟨[]⟩

def contains (used : UsedSet) (identifier : Text) : Bool :=
  used.identifiers.contains identifier

/-- Mark an identifier; `true` for the first mark only. -/
def mark (used : UsedSet) (identifier : Text) : UsedSet × Bool :=
  if used.contains identifier then (used, false)
  else (⟨identifier :: used.identifiers⟩, true)

def size (used : UsedSet) : Nat :=
  used.identifiers.length

def isEmpty (used : UsedSet) : Bool :=
  used.size == 0

end UsedSet

end SceneAudit
