import SceneAudit.Text.Basic

/-! # Order of texts and stable sorting

Texts are ordered by code point, character by character, a proper beginning first. Sorting is
stable: elements that the order does not tell apart keep their places.
-/

namespace SceneAudit

namespace Text

def compare : Text → Text → Ordering
  | [], [] => .eq
  | [], _ :: _ => .lt
  | _ :: _, [] => .gt
  | c :: s, d :: t =>
    if c.toNat < d.toNat then .lt else if d.toNat < c.toNat then .gt else compare s t

def le (s t : Text) : Bool :=
  compare s t != .gt

end Text

namespace Sorting

variable {α : Type}

def insert (le : α → α → Bool) (a : α) : List α → List α
  | [] => [a]
  | b :: l => if le a b then a :: b :: l else b :: insert le a l

/-- Stable sorting by an order. -/
def sort (le : α → α → Bool) : List α → List α
  | [] => []
  | a :: l => insert le a (sort le l)

/-- Keep the first of every run of neighbours that `same` does not tell apart. -/
def dedupBy (same : α → α → Bool) : List α → List α
  | [] => []
  | a :: l =>
    match dedupBy same l with
    | [] => [a]
    | b :: r => if same a b then a :: r else a :: b :: r

end Sorting

end SceneAudit
