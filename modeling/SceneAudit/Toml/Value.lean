import SceneAudit.Number.Binary64

/-! # Values and tables

A table may be written in one piece, under a header, or key by key with dotted keys; what may be
added to it later depends on how it began. A table in one piece is closed. A table under a header
takes deeper headers only. A table that only a deeper header implied may still get a header of its
own.
-/

namespace SceneAudit.Toml

/-- How a table began. -/
inductive Origin where
  /-- Written in one piece. -/
  | inline
  /-- Under a header of its own. -/
  | header
  /-- Named on the way by the header of another table. -/
  | implied
  /-- Named on the way by a dotted key. -/
  | dotted
  deriving DecidableEq, Repr

/-- A value. -/
inductive Value where
  | string (t : Text)
  | integer (n : Int)
  | float (x : Binary64)
  | bool (b : Bool)
  /-- A date, a time or both, as written. -/
  | moment (written : Text)
  | array (items : List Value)
  | table (origin : Origin) (entries : List (Text × Value))
  /-- The tables under headers in double brackets. -/
  | tables (elements : List (List (Text × Value)))
  deriving Repr

/-- The entries of a table; each key occurs once. -/
abbrev Entries := List (Text × Value)

namespace Entries

def set (key : Text) (value : Value) : Entries → Entries
  | [] => [(key, value)]
  | (k, v) :: entries => if k = key then (k, value) :: entries else (k, v) :: set key value entries

def changeLast (change : Entries → Option Entries) (elements : List Entries) : Option Value :=
  match elements.getLast? with
  | none => none
  | some last => (change last).map fun last => .tables (elements.dropLast ++ [last])

/-- Add a key with a value to the table at the end of a dotted path. `takes` tells whether this
table may take keys; a table that no dotted key began takes keys of deeper tables only. -/
def put (takes : Bool) (entries : Entries) : List Text → Text → Value → Option Entries
  | [], key, value =>
    if takes && (entries.lookup key).isNone then some (entries ++ [(key, value)]) else none
  | k :: path, key, value =>
    let changed : Option Value :=
      match entries.lookup k with
      | none => (put true [] path key value).map (.table .dotted)
      | some (.table .dotted inner) => (put true inner path key value).map (.table .dotted)
      | some (.table .implied inner) => (put false inner path key value).map (.table .implied)
      | some (.tables elements) =>
        changeLast (fun inner => put false inner path key value) elements
      | some _ => none
    changed.map fun v => entries.set k v

/-- Change the value of a key of the table at the end of the path of a header. -/
def alter (change : Option Value → Option Value) (entries : Entries) :
    List Text → Text → Option Entries
  | [], key => (change (entries.lookup key)).map fun v => entries.set key v
  | k :: path, key =>
    let changed : Option Value :=
      match entries.lookup k with
      | none => (alter change [] path key).map (.table .implied)
      | some (.table .inline _) => none
      | some (.table origin inner) => (alter change inner path key).map (.table origin)
      | some (.tables elements) => changeLast (fun inner => alter change inner path key) elements
      | some _ => none
    changed.map fun v => entries.set k v

end Entries

/-- A key with the path in front of it, and its value. -/
structure Pair where
  path : List Text
  key : Text
  value : Value
  deriving Repr

namespace Entries

def putAll (entries : Entries) : List Pair → Option Entries
  | [] => some entries
  | pair :: pairs =>
    match entries.put true pair.path pair.key pair.value with
    | none => none
    | some entries => putAll entries pairs

end Entries

end SceneAudit.Toml
