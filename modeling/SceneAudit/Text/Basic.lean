/-! # Text

Text is a list of characters, so that every rule about it is a recursion on the list. Here are the
cuts and searches that more than one format needs.
-/

namespace SceneAudit

/-- A text, character by character. -/
abbrev Text := List Char

namespace Text

def dropStart? : Text → Text → Option Text
  | [], t => some t
  | _ :: _, [] => none
  | c :: p, d :: t => if c = d then dropStart? p t else none

def startsWith (p t : Text) : Bool :=
  (dropStart? p t).isSome

def endsWith (s t : Text) : Bool :=
  startsWith s.reverse t.reverse

def occursIn (p : Text) : Text → Bool
  | [] => p.isEmpty
  | c :: t => startsWith p (c :: t) || occursIn p t

/-- The pieces of a text between the separators; a text without one is a single piece. -/
def splitOn (sep : Char) : Text → List Text
  | [] => [[]]
  | c :: t =>
    if c = sep then [] :: splitOn sep t
    else match splitOn sep t with
      | [] => [[c]]
      | piece :: pieces => (c :: piece) :: pieces

def cutAt? (p : Text) : Text → Option (Text × Text)
  | [] => if p.isEmpty then some ([], []) else none
  | c :: t =>
    match dropStart? p (c :: t) with
    | some rest => some ([], rest)
    | none => (cutAt? p t).map fun (before, rest) => (c :: before, rest)

/-- Erase occurrences of `p` from left to right; `k` characters of one are still to be passed over.
-/
def eraseFrom (p : Text) : Nat → Text → Text
  | _, [] => []
  | k + 1, _ :: t => eraseFrom p k t
  | 0, c :: t =>
    if startsWith p (c :: t) then eraseFrom p (p.length - 1) t else c :: eraseFrom p 0 t

def erase (p t : Text) : Text :=
  eraseFrom p 0 t

/-- Insert `s` after each occurrence of `p`; `k` characters of one are still to be copied. -/
def followFrom (p s : Text) : Nat → Text → Text
  | _, [] => []
  | 0, c :: t =>
    if startsWith p (c :: t) then
      if p.length ≤ 1 then c :: (s ++ followFrom p s 0 t) else c :: followFrom p s (p.length - 1) t
    else c :: followFrom p s 0 t
  | 1, c :: t => c :: (s ++ followFrom p s 0 t)
  | k + 2, c :: t => c :: followFrom p s (k + 1) t

def follow (p s t : Text) : Text :=
  followFrom p s 0 t

def dropEnd (p : Char → Bool) (t : Text) : Text :=
  (t.reverse.dropWhile p).reverse

def replace (old new : Char) (t : Text) : Text :=
  t.map fun c => if c = old then new else c

def joinWith (sep : Text) : List Text → Text
  | [] => []
  | [t] => t
  | t :: u :: ts => t ++ sep ++ joinWith sep (u :: ts)

end Text

end SceneAudit
