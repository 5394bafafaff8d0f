import SceneAudit.Text.Decimal
import SceneAudit.Text.Order

/-! # Order of anchors

Anchors that are 64-bit integers come first, in the order of the integers; all others follow in the
order of texts.
-/

namespace SceneAudit

/-- What an anchor is ordered by. -/
inductive AnchorKey where
  | number (n : Int)
  | text (t : Text)
  deriving DecidableEq, Repr

namespace AnchorKey

def ofAnchor (anchor : Text) : AnchorKey :=
  match Text.readInt64? anchor with
  | some n => .number n
  | none => .text anchor

def le : AnchorKey → AnchorKey → Bool
  | .number a, .number b => a ≤ b
  | .number _, .text _ => true
  | .text _, .number _ => false
  | .text a, .text b => Text.le a b

end AnchorKey

end SceneAudit
