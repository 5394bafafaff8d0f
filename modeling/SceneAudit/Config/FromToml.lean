import SceneAudit.Config.Settings
import SceneAudit.Toml.Document

/-! # Configuration in TOML

Texts are strings. A section is a table, or an array of its fields' values in the order of the
fields. The policy is a string, or a table with the policy as its only key and an empty table below.
-/

namespace SceneAudit.Config

open Toml

namespace FromToml

def text? : Value → Option Text
  | .string t => some t
  | _ => none

def items? : Value → Option (List Value)
  | .array items => some items
  | .tables elements => some (elements.map (.table .header))
  | _ => none

/-- The entries of a table, or of an array of values in the order of the fields. -/
def entries? (fields : List Text) (value : Value) : Option (List (Text × Value)) :=
  match value with
  | .table _ entries => some entries
  | value => (items? value).map fields.zip

def isEmptyTable : Value → Bool
  | .table _ [] => true
  | _ => false

def policy? : Value → Option UsagePolicy
  | .string t => UsagePolicy.ofWord? t
  | .table _ [(key, value)] => if isEmptyTable value then UsagePolicy.ofWord? key else none
  | _ => none

def language : Language Value where
  text? := text?
  items? := items?
  entries? := entries?
  policy? := policy?

end FromToml

def ofToml? (t : Text) : Option Config :=
  (Entries.ofText? t).bind fun entries => FromToml.language.config? (.table .header entries)

end SceneAudit.Config
