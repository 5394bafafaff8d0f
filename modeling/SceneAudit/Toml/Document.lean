import SceneAudit.Toml.Statement

/-! # Documents

The pairs before the first header belong to the table of the document, and those below a header to
the table that the header names.
-/

namespace SceneAudit.Toml

/-- A header and the pairs below it. -/
structure Section where
  isArray : Bool
  path : List Text
  key : Text
  pairs : List Pair
  deriving Repr

namespace Section

/-- The pairs before the first header among some statements, and the sections from there on. -/
def ofStatements : List Statement → List Pair × List Section
  | [] => ([], [])
  | .pair p :: rest =>
    let (pairs, sections) := ofStatements rest
    (p :: pairs, sections)
  | .header path key :: rest =>
    let (pairs, sections) := ofStatements rest
    ([], ⟨false, path, key, pairs⟩ :: sections)
  | .arrayHeader path key :: rest =>
    let (pairs, sections) := ofStatements rest
    ([], ⟨true, path, key, pairs⟩ :: sections)

def change (s : Section) (old : Option Value) : Option Value :=
  match s.isArray, old with
  | false, none => (Entries.putAll [] s.pairs).map (.table .header)
  | false, some (.table .implied entries) => (Entries.putAll entries s.pairs).map (.table .header)
  | true, none => (Entries.putAll [] s.pairs).map fun entries => .tables [entries]
  | true, some (.tables elements) =>
    (Entries.putAll [] s.pairs).map fun entries => .tables (elements ++ [entries])
  | _, some _ => none

end Section

def addSections (entries : Entries) : List Section → Option Entries
  | [] => some entries
  | s :: rest =>
    match entries.alter s.change s.path s.key with
    | none => none
    | some entries => addSections entries rest

/-- The table that a text denotes. -/
def Entries.ofText? (t : Text) : Option Entries :=
  match Statement.ofText? t with
  | none => none
  | some statements =>
    let (pairs, sections) := Section.ofStatements statements
    (Entries.putAll [] pairs).bind fun entries => addSections entries sections

end SceneAudit.Toml
