import SceneAudit.Text.Basic

/-! # Lines

A line ends at a line feed, together with one carriage return right before it. The end of the text
ends a line too, unless nothing follows the last line feed.
-/

namespace SceneAudit.Text

def lines : Text → List Text
  | [] => []
  | '\n' :: t => [] :: lines t
  | '\r' :: '\n' :: t => [] :: lines t
  | c :: t =>
    match lines t with
    | [] => [[c]]
    | l :: ls => (c :: l) :: ls

def unlines (ls : List Text) : Text :=
  ls.flatMap (· ++ ['\n'])

end SceneAudit.Text
