import SceneAudit.Audit.UnusedScript

/-! # The summary of unused scripts

One record per script, after a header record, fields between commas. A field is quoted when it holds
a comma, a quote or a line break, and a quote inside is written twice.
-/

namespace SceneAudit.Csv

def needsQuotes (c : Char) : Bool :=
  c == ',' || c == '"' || c == '\n' || c == '\r'

def doubled : Text → Text
  | [] => []
  | c :: t => if c = '"' then '"' :: '"' :: doubled t else c :: doubled t

def field (t : Text) : Text :=
  if t.any needsQuotes then '"' :: doubled t ++ ['"'] else t

def record (a b : Text) : Text :=
  field a ++ ',' :: field b ++ ['\n']

def header : Text × Text :=
  ("Relative Path".toList, "GUID".toList)

def render (scripts : List UnusedScript) : Text :=
  record header.1 header.2 ++ scripts.flatMap fun s => record s.relativePath s.identifier

end SceneAudit.Csv
